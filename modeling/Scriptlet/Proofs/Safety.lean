-- SUMMARY: Operations that are not defined for all operands are only carried out on those they are defined for.
import Scriptlet.Proofs.Machine.Builtins
import Scriptlet.Proofs.Parse.Moves
import Scriptlet.Proofs.Source.Report

/-!
# Safety

Some operations have no result for some operands: a text has no slice that begins inside a
character or ends behind the text, nothing is less than zero, nothing can be divided by
zero, and a list without elements has no first one. Reading a script, running it and
reporting its fault carries them out on others only.

Slices are those of the scanner, which comes to one lexeme after the other, and of the
report. Counters are counted down by `nested` alone, behind the reader or the evaluation
that it was counted up for.
-/
namespace Scriptlet

open Scriptlet.Action
open Text

/-! ## The scanner -/

namespace Token

/-- The scanner of the text comes to these characters, which stand at `offset`. -/
inductive Reaches (text : List Char) : Nat → List Char → Prop
  | start : Reaches text 0 text
  | next {offset : Nat} {c : Char} {cs : List Char} {found : Lexeme} :
      Reaches text offset (c :: cs) → Lexeme.first offset c cs = .ok found →
      Reaches text (offset + byteLength (c :: cs.take found.more)) (cs.drop found.more)

variable {text cs rest : List Char} {offset : Nat} {c : Char} {found : Lexeme}

theorem Reaches.exists_before (h : Reaches text offset rest) :
    ∃ before, text = before ++ rest ∧ offset = byteLength before := by
  induction h with
  | start => exact ⟨[], rfl, rfl⟩
  | @next offset c cs found _ _ ih =>
    obtain ⟨before, htext, hoffset⟩ := ih
    refine ⟨before ++ c :: cs.take found.more, ?_, ?_⟩
    · rw [htext, List.append_assoc, List.cons_append, List.take_append_drop]
    · rw [hoffset, byteLength_append]

/-- What the scanner comes to is a slice up to the end of the text. -/
theorem Reaches.slice?_rest (h : Reaches text offset rest) :
    slice? offset (byteLength text) text = some rest := by
  obtain ⟨before, rfl, rfl⟩ := h.exists_before
  have hslice := slice?_append before rest []
  rwa [List.append_nil, ← byteLength_append] at hslice

theorem Reaches.slice?_take (h : Reaches text offset (c :: cs)) (n : Nat) :
    slice? offset (offset + byteLength (c :: cs.take n)) text = some (c :: cs.take n) := by
  obtain ⟨before, rfl, rfl⟩ := h.exists_before
  have hslice := slice?_append before (c :: cs.take n) (cs.drop n)
  rwa [List.append_assoc, List.cons_append, List.take_append_drop] at hslice

/-- Where the scanner came to the first character of the token, it found a lexeme of its kind. -/
def ReadFrom (text : List Char) (t : Token) : Prop :=
  ∃ c cs found, Reaches text t.start (c :: cs) ∧ Lexeme.first t.start c cs = .ok found ∧
    found.kind? = some t.kind ∧ t.text = t.kind.textOf? (c :: cs.take found.more) ∧
    t.stop = t.start + byteLength (c :: cs.take found.more)

/-- What the scanner gives was found where it came to: a fault, or tokens. -/
def Scanned (text : List Char) : Except LexError (List Token) → Prop
  | .error e => ∃ offset c cs, Reaches text offset (c :: cs) ∧ Lexeme.first offset c cs = .error e
  | .ok ts => ∀ t ∈ ts, t = atEnd (byteLength text) ∨ ReadFrom text t

theorem Reaches.scanned (h : Reaches text offset cs) : Scanned text (scan offset cs) := by
  fun_induction scan offset cs with
  | case1 offset =>
    obtain ⟨before, rfl, rfl⟩ := h.exists_before
    simp [Scanned]
  | case2 offset c cs ih =>
    cases hfirst : Lexeme.first offset c cs with
    | error e => exact ⟨offset, c, cs, h, hfirst⟩
    | ok found =>
      have hrest := ih found (h.next hfirst)
      simp only [bind, Except.bind]
      generalize scan (offset + byteLength (c :: cs.take found.more)) (cs.drop found.more) = r at hrest
      cases r with
      | error e => exact hrest
      | ok ts =>
        cases hkind : found.kind? with
        | none => exact hrest
        | some kind =>
          refine List.forall_mem_cons.mpr ⟨.inr ?_, hrest⟩
          exact ⟨c, cs, found, h, hfirst, hkind, rfl, rfl⟩

/-- A lexeme has as many characters as were found. -/
theorem more_le_length (h : Lexeme.first offset c cs = .ok found) : found.more ≤ cs.length := by
  obtain ⟨part, rest, rfl, hpart⟩ | ⟨kind, text, tail, rest, rfl, hlexeme⟩ := first_cases h
  · rw [hpart.first offset] at h
    cases h
    simp
  · obtain ⟨_, _, heq, hfirst, rfl⟩ := hlexeme.first offset
    cases heq
    rw [hfirst] at h
    cases h
    simp

/-- A string stands between quotes. -/
theorem exists_quoted (h : Lexeme.first offset c cs = .ok found) (hkind : found.kind? = some .string) :
    ∃ inner, c :: cs.take found.more = '"' :: (inner ++ ['"']) := by
  obtain ⟨part, rest, rfl, hpart⟩ | ⟨kind, text, tail, rest, rfl, hlexeme⟩ := first_cases h
  · rw [hpart.first offset] at h
    cases h
    cases hkind
  · obtain ⟨_, _, heq, hfirst, -⟩ := hlexeme.first offset
    cases heq
    rw [hfirst] at h
    cases h
    cases hkind
    rw [List.take_left]
    cases hlexeme.isMatch with
    | @string body => exact ⟨body, rfl⟩

theorem slice?_quoted (inner : List Char) :
    slice? 1 (byteLength ('"' :: (inner ++ ['"'])) - 1) ('"' :: (inner ++ ['"'])) = some inner := by
  have hlength : byteLength ('"' :: (inner ++ ['"'])) - 1 = byteLength ['"'] + byteLength inner := by
    have hquote : '"'.utf8Size = 1 := rfl
    simp only [byteLength_cons, byteLength_append, byteLength_nil, hquote]
    omega
  rw [hlength]
  exact slice?_append ['"'] inner ['"']

end Token

/-! ## Reports -/

namespace Source

/-- What stands before a position of a text; all of it, if the offset is no position. -/
def before (s : Source) (offset : Nat) : List Char :=
  (before? offset s.content.toList).getD s.content.toList

/-- The column is counted in the part of a line that stands before the position. It is a slice behind the
last line feed. -/
theorem exists_lineStart (s : Source) (offset : Nat) :
    ∃ above left, s.before offset = above ++ left ∧ (∀ c ∈ above.getLast?, c = '\n') ∧ '\n' ∉ left ∧
      slice? (byteLength above) (byteLength (s.before offset)) (s.before offset) = some left ∧
      (s.lineCol offset).2 = left.length + 1 := by
  obtain ⟨left, above, hbefore, hleft, habove⟩ :=
    Token.exists_run (· ≠ '\n') (s.before offset).reverse
  have hsplit : s.before offset = above.reverse ++ left.reverse := by
    rw [← List.reverse_append, ← hbefore, List.reverse_reverse]
  have hcolumn : (s.before offset).reverse.takeWhile (· ≠ '\n') = left := by
    rw [hbefore]
    exact Token.takeWhile_append_stop hleft habove
  refine ⟨above.reverse, left.reverse, hsplit, by simpa using habove, fun h => ?_, ?_, ?_⟩
  · simpa using hleft '\n' (List.mem_reverse.mp h)
  · have hslice := slice?_append above.reverse left.reverse []
    rwa [List.append_nil, ← byteLength_append, ← hsplit] at hslice
  · rw [List.length_reverse, ← hcolumn]
    rfl

end Source

/-! ## Scripts -/

namespace Script

/-- Reading the text, running its program under the limits and reporting its fault carries out no operation
on operands that it is not defined for. -/
structure Safe (text : String) (limits : Limits) (sink : Sink) : Prop where
  /-- The tokens and the fault of the text are found at the characters that the scanner comes to. -/
  scanned : Token.Scanned text.toList (Token.ofText text)
  /-- A lexeme ends within the text: it is a slice, and so is what stands behind it. -/
  lexeme {offset : Nat} {c : Char} {cs : List Char} {found : Token.Lexeme} :
    Token.Reaches text.toList offset (c :: cs) → Token.Lexeme.first offset c cs = .ok found →
    found.more ≤ cs.length ∧
      slice? offset (offset + byteLength (c :: cs.take found.more)) text.toList =
        some (c :: cs.take found.more) ∧
      slice? (offset + byteLength (c :: cs.take found.more)) text.utf8ByteSize text.toList =
        some (cs.drop found.more)
  /-- A string has an opening and a closing quote, and what stands between them is a slice of it. -/
  quotes {offset : Nat} {c : Char} {cs : List Char} {found : Token.Lexeme} :
    Token.Reaches text.toList offset (c :: cs) → Token.Lexeme.first offset c cs = .ok found →
    found.kind? = some .string → ∃ inner, c :: cs.take found.more = '"' :: (inner ++ ['"']) ∧
      slice? 1 (byteLength (c :: cs.take found.more) - 1) (c :: cs.take found.more) = some inner
  /-- What is looked at where no lexeme stands is a slice. -/
  fault {offset : Nat} {c : Char} {cs : List Char} {e : Token.LexError} :
    Token.Reaches text.toList offset (c :: cs) → Token.Lexeme.first offset c cs = .error e →
    slice? offset text.utf8ByteSize text.toList = some (c :: cs)
  /-- The column in a report is counted in a slice of what stands before the position, behind its last line
  feed, and it is not zero. -/
  column (name : String) (offset : Nat) : ∃ above left,
    (Source.mk name text).before offset = above ++ left ∧ (∀ c ∈ above.getLast?, c = '\n') ∧
      '\n' ∉ left ∧ slice? (byteLength above) (byteLength ((Source.mk name text).before offset))
        ((Source.mk name text).before offset) = some left ∧
      ((Source.mk name text).lineCol offset).2 = left.length + 1
  /-- Behind a primary expression there is one to count down, whether it was read or not. -/
  primary (levels : Nat) (c : Cursor) :
    ((Parse.atom (Parse.primary levels)).runOn { c with depth := c.depth + 1 }).2.depth = c.depth + 1
  /-- Behind the evaluation of an expression there is one to count down, however it ends. -/
  expression (fuel : Nat) (e : Expr) (m : Machine) :
    ((Eval.node (Eval.expr fuel) (Eval.call fuel) e).runOn { m with depth := m.depth + 1 }).2.depth =
      m.depth + 1
  /-- Behind the call of a function there is one to count down, however it ends. -/
  call (fuel : Nat) (f : Function) (args : List Value) (m : Machine) :
    ((Eval.inFrame (Eval.enter (Eval.expr fuel) f args)).runOn
      { m with depth := m.depth + 1 }).2.depth = m.depth + 1
  /-- The quotient of integers is only taken where the divisor is not zero. -/
  quotient (a b : Int64) (v : Value) : BinaryOp.div.apply (.int a) (.int b) = .ok v → b ≠ 0
  /-- No builtin is called without an argument that it reads. -/
  arguments (p : Program) : Program.ofText text = .ok p →
    ((Eval.program p).runOn (Machine.standard limits sink)).1 ≠ .error (.error .missingArgument)

theorem safe (text : String) (limits : Limits) (sink : Sink) : Safe text limits sink where
  scanned := Token.Reaches.start.scanned
  lexeme hreached hfound := by
    have hnext := (hreached.next hfound).slice?_rest
    rw [byteLength_toList] at hnext
    exact ⟨Token.more_le_length hfound, hreached.slice?_take _, hnext⟩
  quotes _ hfound hkind := by
    obtain ⟨inner, hquoted⟩ := Token.exists_quoted hfound hkind
    refine ⟨inner, hquoted, ?_⟩
    rw [hquoted]
    exact Token.slice?_quoted inner
  fault hreached _ := by
    rw [← byteLength_toList]
    exact hreached.slice?_rest
  column name offset := Source.exists_lineStart _ offset
  primary levels c := (Parse.moves_atom (Parse.moves_primary levels) _).depth
  expression fuel e m := by
    obtain ⟨w, hw, -⟩ := (Eval.changesWorld_node fuel e).exists_eq { m with depth := m.depth + 1 }
    rw [hw]
    rfl
  call fuel f args m := by
    obtain ⟨w, hw, -⟩ :=
      (Eval.changesCall_enter fuel f args).inFrame.exists_eq { m with depth := m.depth + 1 }
    rw [hw]
    rfl
  quotient a b v h := by
    rintro rfl
    cases h
  arguments p _ := Eval.program_ne_missingArgument Builtins.supplied_standard p

end Script

end Scriptlet
