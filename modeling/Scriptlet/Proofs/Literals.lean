-- SUMMARY: Literals survive reading and running: a script that prints one writes what the literal stands for.
import Scriptlet.Proofs.Machine.Capacity
import Scriptlet.Proofs.Machine.Incremental
import Scriptlet.Proofs.Writing.RoundTrip

/-!
# Printing literals

A script that prints a string writes the characters of the string, whatever they are, if
backslashes and quotes have a backslash before them. A script that prints an integer writes
its digits and its sign, though an integer is never read with a sign: the sign is an operator.
-/
namespace Scriptlet

open Scriptlet.Action Semantics
open Terminal (mark word)

/-! ## Texts -/

namespace Token

/-- How a character may be written in a string: a line feed in two ways, any other in one. -/
inductive Escapes : Char → List Char → Prop
  | escape (c : Char) : Escapes c (escape c)
  | lineFeed : Escapes '\n' ['\\', 'n']

theorem quotes_of_escapes {value : List Char} {parts : List (List Char)}
    (h : value.Forall₂ Escapes parts) : Quotes parts.flatten value := by
  induction h with
  | nil => exact .nil
  | cons hc _ ih =>
    rw [List.flatten_cons]
    cases hc with
    | escape => exact ih.cons_escape _
    | lineFeed => exact .lineFeed ih

/-- Wherever the characters stand, they are split into tokens with these terminals. -/
def Scans (cs : List Char) (ts : List Terminal) : Prop :=
  ∀ offset, ∃ tokens, Splits offset cs tokens ∧ tokens.map Token.terminal = ts

variable {kind : Kind} {text : Option String} {lexeme rest : List Char} {ts : List Terminal}

theorem scans_nil : Scans [] [] := fun _ => ⟨[], .nil, rfl⟩

theorem Scans.token (h : Scans rest ts) (hlexeme : Lexes kind text lexeme)
    (hstops : ∀ c ∈ rest.head?, kind.goesOn c = false) :
    Scans (lexeme ++ rest) (⟨kind, text⟩ :: ts) := by
  intro offset
  obtain ⟨tokens, hsplits, rfl⟩ := h (offset + Text.byteLength lexeme)
  exact ⟨_, .token ⟨hlexeme, hstops⟩ hsplits, rfl⟩

theorem Scans.space (h : Scans rest ts) : Scans (' ' :: rest) ts := by
  intro offset
  obtain ⟨tokens, hsplits, hterminals⟩ := h (offset + Text.byteLength [' '])
  exact ⟨tokens, .skip (.blank rfl) hsplits, hterminals⟩

theorem Scans.ofText {source : String} (h : Scans source.toList ts) :
    ∃ tokens, Token.ofText source = .ok tokens ∧
      tokens.map Token.terminal = ts ++ [mark .endOfInput] := by
  obtain ⟨tokens, hsplits, rfl⟩ := h 0
  exact ⟨_, hsplits.scan, by rw [List.map_append]; rfl⟩

theorem isIdentifier_r : IsIdentifier "r" := ⟨⟨'r', [], rfl, rfl, nofun⟩, by decide⟩

theorem isIdentifier_print : IsIdentifier "print" := by
  refine ⟨⟨'p', ['r', 'i', 'n', 't'], rfl, rfl, ?_⟩, by decide⟩
  simp only [List.forall_mem_cons]
  exact ⟨rfl, rfl, rfl, rfl, nofun⟩

/-- The text of a script that prints a literal. -/
theorem scans_printing {literal : List Char} {ts : List Terminal}
    (h : Scans (literal ++ [')', ';']) (ts ++ [mark .closeParen, mark .semicolon])) :
    Scans ("var r = print(".toList ++ (literal ++ [')', ';']))
      (mark .varWord :: word "r" :: mark .equals :: word "print" :: mark .openParen ::
        (ts ++ [mark .closeParen, mark .semicolon])) := by
  have hparen : Kind.openParen.isMark := rfl
  have hequals : Kind.equals.isMark := rfl
  have hvar : Kind.varWord.isMark := rfl
  have hargs := h.token (lexes_mark hparen) fun _ _ => rfl
  have hcall := (hargs.token isIdentifier_print.lexes (by rintro _ ⟨⟩; rfl)).space
  have hvalue := (hcall.token (lexes_mark hequals) fun _ _ => rfl).space
  have hdecl := (hvalue.token isIdentifier_r.lexes (by rintro _ ⟨⟩; rfl)).space
  exact hdecl.token (lexes_mark hvar) (by rintro _ ⟨⟩; rfl)

theorem scans_end : Scans [')', ';'] [mark .closeParen, mark .semicolon] := by
  have hsemicolon : Kind.semicolon.isMark := rfl
  have hparen : Kind.closeParen.isMark := rfl
  exact (scans_nil.token (lexes_mark hsemicolon) nofun).token (lexes_mark hparen) fun _ _ => rfl

end Token

/-! ## Programs -/

/-- Prints the value of an expression, and declares a variable that holds what printing returns. -/
def Program.printing (e : Expr) : Program where
  decls := [.var "r" (some (.call (.name "print") [e]))]

theorem Program.ofText_printing {e : Expr} (he : e.WellFormed) (hheight : e.height < maxNesting)
    {ts : List Terminal} (hwritten : e.Written 0 ts) {literal : String}
    (hscans : Token.Scans (literal.toList ++ [')', ';']) (ts ++ [mark .closeParen, mark .semicolon])) :
    Program.ofText ("var r = print(" ++ literal ++ ");") = .ok (printing e) := by
  have hwellFormed : (printing e).WellFormed := by
    refine ⟨List.forall_mem_singleton.mpr ⟨Token.isIdentifier_r, ?_⟩, ?_⟩
    · rintro _ ⟨⟩
      exact ⟨⟨"print", rfl, Token.isIdentifier_print⟩, he, trivial⟩
    · rintro _ h
      obtain rfl := List.mem_singleton.mp h
      simp only [Expr.height, Expr.maxHeight]
      omega
  have hprogram : (printing e).Written (mark .varWord :: word "r" :: mark .equals :: word "print" ::
      mark .openParen :: (ts ++ [mark .closeParen, mark .semicolon])) := by
    refine ⟨_, .cons (.var (.call (.cons hwritten .nil))) .nil, ?_⟩
    simp [commas]
  obtain ⟨d, hyield, htree, hadm, hw⟩ := hprogram.exists_derivation hwellFormed
  have htext : ("var r = print(" ++ literal ++ ");").toList =
      "var r = print(".toList ++ (literal.toList ++ [')', ';']) := by
    rw [String.toList_append, String.toList_append, List.append_assoc]
    rfl
  have hscans := Token.scans_printing hscans
  rw [← htext] at hscans
  obtain ⟨tokens, htokens, hterminals⟩ := hscans.ofText
  refine Program.ofText_eq_ok.mpr ⟨tokens, htokens, ?_⟩
  rw [← htree]
  refine Program.ofTokens_of_derivation (by rw [Grammar.Derivation.Spells, hyield]; exact hterminals)
    (fun t ht => ?_) hadm
  exact (hw t (hyield ▸ ht)).spellable.lexed

/-! ## Runs -/

namespace Machine

/-- The machine of a script that is run by itself. -/
abbrev own : Machine := Machine.standard {} {}

/-- That machine while it evaluates an argument. -/
abbrev inArgument : Machine := { own with depth := 1 }

/-- That machine after it has printed the value. -/
def printed (v : Value) : Machine :=
  { own with
    globals := ({} : Scope).insert "r" ⟨.null, .mutable⟩
    sink := { written := v.display.toByteArray } }

theorem run_printing {e : Expr} {v : Value}
    (he : (Eval.expr 511 e).runOn inArgument = (.ok v, inArgument)) :
    own.run (.printing e) = (.ok .completed, printed v) := by
  have houtput : (Routine.print.carryOut [v]).runOn own.world.sink =
      (.ok .null, { written := v.display.toByteArray }) := by
    have hrun := Routine.runOn_output_unbounded (s := own.world.sink) rfl v.display
    rw [Sink.append, show own.world.sink.written = .empty from rfl, ByteArray.empty_append] at hrun
    exact hrun
  have hprint : (Eval.callBuiltin ⟨"print", 1, 1, .print⟩ [v]).runOn inArgument =
      (.ok .null, { inArgument with sink := { written := v.display.toByteArray } }) := by
    have hrun := runOn_callBuiltin ⟨"print", 1, 1, .print⟩ [v] inArgument own.world
    rw [if_pos ⟨Nat.le_refl 1, Nat.le_refl 1⟩, carryOut_eq, houtput] at hrun
    exact hrun
  have hcall : (Eval.expr 512 (.call (.name "print") [e])).runOn own =
      (.ok .null, { own with sink := { written := v.display.toByteArray } }) := by
    have hnode : (Eval.node (Eval.expr 511) (Eval.call 511) (.call (.name "print") [e])).runOn inArgument =
        (.ok .null, { inArgument with sink := { written := v.display.toByteArray } }) := by
      refine (Eval.runOn_namedCall_builtin (b := ⟨"print", 1, 1, .print⟩) rfl rfl [e]).trans ?_
      rw [Eval.list, bind_assoc]
      exact (runOn_bind_ok he).trans hprint
    exact Eval.runOn_nested_room (by decide) hnode
  have hprogram : (Eval.program (.printing e)).runOn own = (.ok (), printed v) := by
    rw [Eval.program_eq_globals rfl]
    exact runOn_bind_ok hcall
  exact run_eq_completed rfl rfl rfl hprogram

/-- A script with nothing but a call that prints what is written so completes, and it writes the text. -/
def Prints (literal text : String) : Prop :=
  ∃ m, own.runText ("var r = print(" ++ literal ++ ");") = (.ok .completed, m) ∧
    m.sink.written = text.toByteArray

theorem prints_of_written {e : Expr} (he : e.WellFormed) (hheight : e.height < maxNesting)
    {ts : List Terminal} (hwritten : e.Written 0 ts) {literal : String}
    (hscans : Token.Scans (literal.toList ++ [')', ';']) (ts ++ [mark .closeParen, mark .semicolon]))
    {v : Value}
    (hv : (Eval.expr 511 e).runOn inArgument = (.ok v, inArgument)) :
    Prints literal v.display := by
  refine ⟨printed v, ?_, rfl⟩
  simp only [runText, Program.ofText_printing he hheight hwritten hscans, run_printing hv]
  rfl

/-! ## Strings -/

theorem prints_string {s : String} {parts : List (List Char)}
    (h : s.toList.Forall₂ Token.Escapes parts) :
    Prints ("\"" ++ String.ofList parts.flatten ++ "\"") s := by
  have hheight : (Expr.string s).height < maxNesting := show 1 < maxNesting by decide
  have htext : ("\"" ++ String.ofList parts.flatten ++ "\"").toList = '"' :: (parts.flatten ++ ['"']) := by
    simp
  have hlexes := Token.lexes_string (Token.quotes_of_escapes h)
  rw [String.ofList_toList] at hlexes
  have hscans := Token.scans_end.token hlexes fun _ _ => rfl
  rw [← htext] at hscans
  exact prints_of_written (e := .string s) (v := .string s) trivial hheight (.string s) hscans rfl

/-! ## Integers -/

theorem toList_repr (n : Nat) : n.repr.toList = Nat.toDigits 10 n := by
  rw [Nat.repr, String.toList_ofList]

theorem scans_integer (n : Nat) : Token.Scans (n.repr.toList ++ [')', ';'])
    [⟨.integer, some n.repr⟩, mark .closeParen, mark .semicolon] := by
  have hlexes := Token.lexes_integer (Decimal.isWhole_toDigits n)
  rw [← toList_repr, String.ofList_toList] at hlexes
  exact Token.scans_end.token hlexes (by rintro _ ⟨⟩; rfl)

theorem display_ofNat {n : Nat} (hn : n < 2 ^ 63) : (Value.int (.ofNat n)).display = n.repr := by
  rw [Value.display, Int64.toInt_ofNat_of_lt hn]
  rfl

theorem display_neg_ofNat {n : Nat} (hpos : 0 < n) (hn : n < 2 ^ 63) :
    (Value.int (-.ofNat n)).display = "-" ++ n.repr := by
  have htoInt : (-Int64.ofNat n).toInt = -n := by
    rw [← Int64.ofInt_eq_ofNat, ← Int64.ofInt_neg, Int64.toInt_ofInt_of_le (by omega) (by omega)]
  obtain ⟨k, rfl⟩ := Nat.exists_eq_succ_of_ne_zero hpos.ne'
  rw [Value.display, htoInt]
  rfl

/-- An integer is negative and not the smallest one, or it is not negative. -/
theorem exists_eq_ofNat {n : Int64} (hn : n ≠ Int64.minValue) :
    ∃ k < 2 ^ 63, n = .ofNat k ∨ 0 < k ∧ n = -.ofNat k := by
  have hmin : n.toInt ≠ -2 ^ 63 := fun h => hn (Int64.toInt_inj.mp h)
  have hle := n.le_toInt
  have hlt := n.toInt_lt
  refine ⟨n.toInt.natAbs, by omega, ?_⟩
  by_cases hsign : 0 ≤ n.toInt
  · refine .inl ?_
    rw [← Int64.ofInt_eq_ofNat, Int.natAbs_of_nonneg hsign, Int64.ofInt_toInt]
  · refine .inr ⟨by omega, ?_⟩
    rw [← Int64.ofInt_eq_ofNat, ← Int64.ofInt_neg, Int.ofNat_natAbs_of_nonpos (by omega), Int.neg_neg,
      Int64.ofInt_toInt]

theorem wellFormed_ofNat {n : Nat} (hn : n < 2 ^ 63) : (Expr.int (.ofNat n)).WellFormed := by
  have hle : (0 : Int64) ≤ .ofNat n := by
    rw [Int64.le_iff_toInt_le, Int64.toInt_ofNat_of_lt hn]
    exact Int.natCast_nonneg n
  exact hle

theorem prints_integer {n : Int64} (hn : n ≠ Int64.minValue) :
    Prints (Value.int n).display (Value.int n).display := by
  obtain ⟨k, hk, rfl | ⟨hpos, rfl⟩⟩ := exists_eq_ofNat hn
  · have hheight : (Expr.int (.ofNat k)).height < maxNesting := show 1 < maxNesting by decide
    refine prints_of_written (wellFormed_ofNat hk) hheight (.int hk) ?_ rfl
    rw [display_ofNat hk]
    exact scans_integer k
  · have hheight : (Expr.unary .minus (.int (.ofNat k))).height < maxNesting :=
      show 2 < maxNesting by decide
    refine prints_of_written (e := .unary .minus (.int (.ofNat k))) (wellFormed_ofNat hk) hheight
      (.unary (.int hk)) ?_ rfl
    have hminus : Token.Kind.minus.isMark := rfl
    have hscans := (scans_integer k).token (Token.lexes_mark hminus) fun _ _ => rfl
    rw [display_neg_ofNat hpos hk, String.toList_append]
    exact hscans

/-- What a script prints with a literal for its argument is what the literal was written for: the
characters of a string, in which each backslash and each quote has a backslash before it and line feeds
may be escapes, and an integer in the digits that show it, with the sign of a negative one. -/
theorem runText_print_literal :
    (∀ s : String, Prints ("\"" ++ String.ofList (s.toList.flatMap Token.escape) ++ "\"") s) ∧
    (∀ (s : String) (parts : List (List Char)), s.toList.Forall₂ Token.Escapes parts →
      Prints ("\"" ++ String.ofList parts.flatten ++ "\"") s) ∧
    ∀ n : Int64, n ≠ Int64.minValue → Prints (Value.int n).display (Value.int n).display := by
  refine ⟨fun s => ?_, fun s parts => prints_string, fun n => prints_integer⟩
  rw [List.flatMap_def]
  refine prints_string (List.forall₂_map_right_iff.mpr (List.forall₂_same.mpr ?_))
  exact fun c _ => .escape c

/-- A string with a quote, a backslash before an `n`, and two line feeds that are written in different
ways; and the least integer that is printed. -/
theorem runText_print_literal_small :
    let parts := [['\\', '"'], ['\\', '\\'], ['n'], ['\n'], ['\\', 'n']]
    "\"\\n\n\n".toList.Forall₂ Token.Escapes parts ∧
      Prints ("\"" ++ String.ofList parts.flatten ++ "\"") "\"\\n\n\n" ∧
      Int64.minValue + 1 ≠ Int64.minValue ∧
      Prints (Value.int (Int64.minValue + 1)).display (Value.int (Int64.minValue + 1)).display := by
  intro parts
  have hparts : "\"\\n\n\n".toList.Forall₂ Token.Escapes parts :=
    .cons (.escape '"') (.cons (.escape '\\') (.cons (.escape 'n') (.cons (.escape '\n')
      (.cons .lineFeed .nil))))
  have hint : Int64.minValue + 1 ≠ Int64.minValue := by decide
  exact ⟨hparts, runText_print_literal.2.1 _ _ hparts, hint, runText_print_literal.2.2 _ hint⟩

end Machine

end Scriptlet
