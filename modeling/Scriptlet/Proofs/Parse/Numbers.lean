-- SUMMARY: The numbers of a program are those of its literals in order: integers exactly, floats if they are in range.
import Scriptlet.Proofs.Decimal.Numerals
import Scriptlet.Proofs.Decimal.Range
import Scriptlet.Proofs.Literals
import Scriptlet.Proofs.Parse.Faults

/-!
# The numbers of a program

The numbers in a program are what its literals denote, from left to right. An integer is
the exact value of its digits, and a text with a larger one is refused. A float is finite
if its literal is in the range of floats, but a text with a larger one is not refused:
the float is infinite.
-/
namespace Scriptlet

open Grammar
open Scriptlet.Action
open Terminal (mark word)

mutual

/-- The numbers in an expression, from left to right. -/
def Expr.numbers : Expr → List Value
  | .null | .string _ | .name _ => []
  | .int n => [.int n]
  | .float x => [.float x]
  | .unary _ e => e.numbers
  | .binary _ l r => l.numbers ++ r.numbers
  | .call callee args => callee.numbers ++ Expr.listNumbers args

/-- The numbers in some expressions. -/
def Expr.listNumbers : List Expr → List Value
  | [] => []
  | e :: es => e.numbers ++ Expr.listNumbers es

end

def Program.numbers (p : Program) : List Value := p.exprs.flatMap Expr.numbers

/-- The number that a terminal denotes, if it is a numeral. -/
def Terminal.number? (t : Terminal) : Option Value :=
  match t.kind with
  | .integer => some (.int (Int64.ofNat (Nat.ofDigitChars 10 (t.text.getD "").toList 0)))
  | .float => some (.float ((Decimal.readFloat? (t.text.getD "").toList).getD 0))
  | _ => none

/-! ## Derivations -/

namespace Grammar

theorem AddOp.number?_mark (op : AddOp) : (mark op.kind).number? = none := by cases op <;> rfl

theorem MulOp.number?_mark (op : MulOp) : (mark op.kind).number? = none := by cases op <;> rfl

theorem number?_signKind (sign : UnaryOp) : (mark (signKind sign)).number? = none := by
  cases sign <;> rfl

theorem number?_word (x : String) : (word x).number? = none := rfl

theorem Literal.numbers_tree (l : Literal) : l.tree.numbers = l.terminal.number?.toList := by
  cases l <;> simp [tree, terminal, Terminal.number?, Expr.numbers]

/-- The numbers that terminals denote, from left to right. -/
def numbers (ts : List Terminal) : List Value := ts.filterMap Terminal.number?

@[simp]
theorem numbers_nil : numbers [] = [] := rfl

@[simp]
theorem numbers_cons (t : Terminal) (ts : List Terminal) :
    numbers (t :: ts) = t.number?.toList ++ numbers ts := by
  cases h : t.number? <;> simp [numbers, h]

@[simp]
theorem numbers_append (ts us : List Terminal) : numbers (ts ++ us) = numbers ts ++ numbers us :=
  List.filterMap_append

theorem numbers_flatMap {α : Type} (f : α → List Terminal) (l : List α) :
    numbers (l.flatMap f) = l.flatMap fun a => numbers (f a) := by
  induction l with
  | nil => rfl
  | cons a l ih => simp [ih]

mutual

theorem Factor.numbers_tree : (f : Factor) → f.tree.numbers = numbers f.yield
  | .literal l => by simp [Factor.tree, Factor.yield, l.numbers_tree]
  | .name x => by simp [Factor.tree, Factor.yield, Expr.numbers, number?_word]
  | .call c => by rw [Factor.tree, Factor.yield, c.numbers_tree]
  | .signed sign f => by
    simp [Factor.tree, Factor.yield, Expr.numbers, number?_signKind, f.numbers_tree]
  | .parens s => by simp [Factor.tree, Factor.yield, s.numbers_tree, Terminal.number?]

theorem Call.numbers_tree : (c : Call) → c.tree.numbers = numbers c.yield
  | .plain x => by
    simp [Call.tree, Call.yield, Expr.numbers, Expr.listNumbers, Terminal.number?]
  | .applied x args => by
    simp [Call.tree, Call.yield, Expr.numbers, Terminal.number?, args.numbers_trees]

theorem Args.numbers_trees : (args : Args) → Expr.listNumbers args.trees = numbers args.yield
  | .last s => by simp [Args.trees, Args.yield, Expr.listNumbers, s.numbers_tree]
  | .more s args => by
    simp [Args.trees, Args.yield, Expr.listNumbers, s.numbers_tree, args.numbers_trees,
      Terminal.number?]

theorem Term.numbers_tree : (t : Term) → t.tree.numbers = numbers t.yield
  | .mk f tail => by simp [Term.tree, Term.yield, tail.numbers_onto, f.numbers_tree]

theorem TermTail.numbers_onto : (tail : TermTail) → (lhs : Expr) →
    (tail.onto lhs).numbers = lhs.numbers ++ numbers tail.yield
  | .done, lhs => by simp [TermTail.onto, TermTail.yield]
  | .more op f tail, lhs => by
    simp [TermTail.onto, TermTail.yield, Expr.numbers, tail.numbers_onto, f.numbers_tree,
      op.number?_mark]

theorem Sum.numbers_tree : (s : Grammar.Sum) → s.tree.numbers = numbers s.yield
  | .mk t tail => by simp [Sum.tree, Sum.yield, tail.numbers_onto, t.numbers_tree]

theorem SumTail.numbers_onto : (tail : SumTail) → (lhs : Expr) →
    (tail.onto lhs).numbers = lhs.numbers ++ numbers tail.yield
  | .done, lhs => by simp [SumTail.onto, SumTail.yield]
  | .more op t tail, lhs => by
    simp [SumTail.onto, SumTail.yield, Expr.numbers, tail.numbers_onto, t.numbers_tree,
      op.number?_mark]

end

theorem numbers_initializer (s : Option Grammar.Sum) :
    (s.map Sum.tree).toList.flatMap Expr.numbers = numbers (initializer s) := by
  cases s with
  | none => rfl
  | some s => simp [initializer, s.numbers_tree, Terminal.number?]

theorem Statement.numbers_tree (s : Statement) : s.tree.value.numbers = numbers s.yield := by
  cases s with
  | const x s => simp [tree, yield, Stmt.value, s.numbers_tree, Terminal.number?]
  | var x s =>
    have hvalue : ((s.map Sum.tree).getD .null).numbers = numbers (initializer s) := by
      rw [← numbers_initializer]
      cases s <;> simp [Expr.numbers]
    simp [tree, yield, Stmt.value, hvalue, Terminal.number?]
  | assign x s => simp [tree, yield, Stmt.value, s.numbers_tree, Terminal.number?]
  | ret s => simp [tree, yield, Stmt.value, s.numbers_tree, Terminal.number?]
  | call c => simp [tree, yield, Stmt.value, c.numbers_tree, Terminal.number?]

theorem Param.numbers_yield (p : Param) :
    numbers p.yield = ((p.optional?).map OptionalParam.default).toList.flatMap Expr.numbers := by
  simp [yield, number?_word, ← numbers_initializer, optional?, Function.comp_def]

theorem numbers_defaults (ps : List Param) :
    ((ps.filterMap Param.optional?).map OptionalParam.default).flatMap Expr.numbers =
      ps.flatMap fun p => numbers p.yield := by
  induction ps with
  | nil => rfl
  | cons p ps ih =>
    rw [List.flatMap_cons, ← ih, p.numbers_yield]
    cases h : p.optional? <;> simp [h]

theorem numbers_paramList (ps : List Param) :
    numbers (paramList ps) = ps.flatMap fun p => numbers p.yield := by
  induction ps using paramList.induct with
  | case1 => rfl
  | case2 p => simp [paramList]
  | case3 p ps hps ih => simp [paramList, ih, Terminal.number?]

theorem FuncDecl.numbers_tree (f : FuncDecl) :
    f.tree.exprs.flatMap Expr.numbers = numbers f.yield := by
  have hbody : (f.body.map Statement.tree).flatMap (fun s => s.value.numbers) =
      numbers (f.body.flatMap Statement.yield) := by
    simp [numbers_flatMap, List.flatMap_map, Statement.numbers_tree]
  simp [Function.exprs, tree, yield, numbers_paramList, ← numbers_defaults, Terminal.number?, ← hbody, List.flatMap_map]

theorem Declaration.numbers_tree (d : Declaration) :
    d.tree.exprs.flatMap Expr.numbers = numbers d.yield := by
  cases d with
  | const x s => simp [tree, yield, Decl.exprs, s.numbers_tree, Terminal.number?]
  | var x s => simp [tree, yield, Decl.exprs, numbers_initializer, Terminal.number?]
  | func f => exact f.numbers_tree

theorem Derivation.numbers_tree (d : Derivation) : d.tree.numbers = numbers d.yield := by
  simp [Program.numbers, Program.exprs, tree, yield, numbers_flatMap, List.flatMap_assoc,
    List.flatMap_map, Declaration.numbers_tree]

end Grammar

/-! ## Literals -/

namespace Decimal

/-- The number that is written with these digits around the point. -/
def pointedValue (whole fraction : List Char) : ℚ :=
  Nat.ofDigitChars 10 (whole ++ fraction) 0 / 10 ^ fraction.length

/-- A numeral with a point is read as a finite float if it is in the range of floats, and as infinity
if not. -/
theorem exists_readFloat? {whole fraction : List Char} (hw : IsWhole whole)
    (hf : ∀ c ∈ fraction, c.isDigit) :
    ∃ x, readFloat? (whole ++ '.' :: fraction) = some x ∧
      (x.isFinite ↔ pointedValue whole fraction < 2 ^ 1024 - 2 ^ 970) ∧
      (¬ x.isFinite → x = infinity) := by
  have hvalue : Scientific.value ⟨Nat.ofDigitChars 10 (whole ++ fraction) 0, -fraction.length⟩ =
      pointedValue whole fraction := by
    rw [Scientific.value, zpow_neg, zpow_natCast, pointedValue, div_eq_mul_inv]
  refine ⟨_, readFloat?_of_isPointed hw hf, ?_, fun h => ?_⟩
  · rw [Scientific.isFinite_toFloat, ← cast_overflow, hvalue]
  · rw [Scientific.isFinite_toFloat, not_lt] at h
    exact Scientific.toFloat_of_overflow_le h

end Decimal

namespace Token

/-- Is the token a numeral? -/
def IsNumeral (t : Token) : Prop := t.kind = .integer ∨ t.kind = .float

instance (t : Token) : Decidable t.IsNumeral := inferInstanceAs (Decidable (_ ∨ _))

/-- The token is a literal of the number. An integer is the exact value of its digits. A float is
finite if the exact value of its digits is in the range of floats, and infinite if not. -/
inductive Denotes (t : Token) : Value → Prop
  | integer {n : Int64} (kind : t.kind = .integer)
      (value : n.toInt = Nat.ofDigitChars 10 (t.text.getD "").toList 0) : Denotes t (.int n)
  | float {x : Float} {whole fraction : List Char} (kind : t.kind = .float)
      (text : (t.text.getD "").toList = whole ++ '.' :: fraction)
      (wholeDigits : Decimal.IsWhole whole) (fractionDigits : ∀ c ∈ fraction, c.isDigit)
      (finite : x.isFinite ↔ Decimal.pointedValue whole fraction < 2 ^ 1024 - 2 ^ 970)
      (infinite : ¬ x.isFinite → x = Decimal.infinity) : Denotes t (.float x)

theorem exists_number? {t : Token} (hlexed : t.terminal.Lexed) (hrange : t.terminal.InRange)
    (h : t.IsNumeral) : ∃ v, t.terminal.number? = some v ∧ t.Denotes v := by
  rcases t with ⟨kind, text, start, stop⟩
  obtain hkind | hkind : kind = .integer ∨ kind = .float := h
  · subst hkind
    obtain ⟨digits, rfl, hdigits⟩ := hlexed
    have hlt : Nat.ofDigitChars 10 digits.toList 0 < 2 ^ 63 := hrange rfl
    exact ⟨_, rfl, .integer rfl (Int64.toInt_ofNat_of_lt hlt)⟩
  · subst hkind
    obtain ⟨s, rfl, whole, fraction, hw, hf, htext⟩ := hlexed
    obtain ⟨x, hread, hfinite, hinfinite⟩ := Decimal.exists_readFloat? hw hf
    refine ⟨.float x, ?_, .float rfl htext hw hf hfinite hinfinite⟩
    simp [Terminal.number?, terminal, htext, hread]

theorem number?_eq_none {t : Token} (h : ¬ t.IsNumeral) : t.terminal.number? = none := by
  rcases t with ⟨kind, text, start, stop⟩
  cases kind <;> first | rfl | simp [IsNumeral] at h

theorem readInt64?_eq_none {t : Token} (hkind : t.kind = .integer) (hlexed : t.terminal.Lexed) :
    Decimal.readInt64? (t.text.getD "").toList = none ↔
      2 ^ 63 ≤ Nat.ofDigitChars 10 (t.text.getD "").toList 0 := by
  rcases t with ⟨kind, text, start, stop⟩
  obtain rfl : kind = .integer := hkind
  obtain ⟨digits, rfl, hdigits⟩ := hlexed
  rw [Option.getD_some, Decimal.readInt64?_of_isWhole hdigits]
  split <;> simp_all

/-- The numerals among tokens of a text denote numbers in order. -/
theorem denotes_numbers {ts : List Token}
    (h : ∀ t ∈ ts, t.terminal.Lexed ∧ t.terminal.InRange) :
    List.Forall₂ Denotes (ts.filter IsNumeral) (numbers (ts.map terminal)) := by
  induction ts with
  | nil => exact .nil
  | cons t ts ih =>
    obtain ⟨⟨hlexed, hrange⟩, hts⟩ := List.forall_mem_cons.mp h
    by_cases hnumeral : t.IsNumeral
    · obtain ⟨v, hv, hdenotes⟩ := exists_number? hlexed hrange hnumeral
      simpa [hnumeral, hv] using ⟨hdenotes, ih hts⟩
    · simpa [hnumeral, number?_eq_none hnumeral] using ih hts

end Token

namespace Program

variable {text : String} {ts : List Token} {p : Program}

/-- The numbers of a program are those of the numerals of its text. -/
theorem denotes_numbers (htext : Token.ofText text = .ok ts) (h : ofTokens ts = .ok p) :
    List.Forall₂ Token.Denotes (ts.filter Token.IsNumeral) p.numbers := by
  obtain ⟨init, stop, rfl, hinit⟩ := Token.scan_shape htext
  obtain ⟨d, hspells, rfl, hadm⟩ := exists_derivation hinit h
  have hyield := hspells.terminals_init
  have hall : ∀ t ∈ init, t.terminal.Lexed ∧ t.terminal.InRange := fun t ht =>
    ⟨(hinit t ht).2, hadm.inRange _ (hyield ▸ List.mem_map_of_mem ht)⟩
  rw [d.numbers_tree, ← hyield]
  simpa [Token.IsNumeral, Token.atEnd] using Token.denotes_numbers hall

end Program

/-! ## Refused numerals -/

namespace Parse

variable {ts : List Token}

/-- The cursor sees tokens of the list, which are as texts have them. -/
def SeesLexed (ts : List Token) (c : Cursor) : Prop :=
  ∀ t ∈ c.final :: c.rest, t ∈ ts ∧ t.terminal.Lexed

/-- Only an integer of the list that is beyond 63 bits is refused as a number. -/
def RefusesInteger (ts : List Token) (e : ParseError) (_ : Cursor) : Prop :=
  ∀ text offset, e = .numberOutOfRange text offset →
    ∃ t ∈ ts, t.kind = .integer ∧ t.text = some text ∧ t.start = offset ∧
      2 ^ 63 ≤ Nat.ofDigitChars 10 text.toList 0

theorem SeesLexed.current {c : Cursor} (h : SeesLexed ts c) :
    c.current ∈ ts ∧ c.current.terminal.Lexed := by
  rcases c with ⟨_ | ⟨t, rest⟩, final, depth, height⟩
  · exact h final List.mem_cons_self
  · exact h t (List.mem_cons_of_mem _ List.mem_cons_self)

theorem refusesInteger_of_misread {t : Token} (ht : t ∈ ts) (hlexed : t.terminal.Lexed)
    (h : t.Misread) (c : Cursor) :
    RefusesInteger ts (.numberOutOfRange (t.text.getD "") t.start) c := by
  rintro text offset ⟨⟩
  obtain ⟨hkind, hread⟩ | ⟨hkind, hread⟩ := h
  · have hlarge := (Token.readInt64?_eq_none hkind hlexed).mp hread
    rcases t with ⟨kind, text, start, stop⟩
    obtain rfl : kind = .integer := hkind
    obtain ⟨digits, rfl, -⟩ := hlexed
    exact ⟨_, ht, rfl, rfl, rfl, hlarge⟩
  · rcases t with ⟨kind, text, start, stop⟩
    obtain rfl : kind = .float := hkind
    obtain ⟨s, rfl, hpointed⟩ := hlexed
    have hsome := Decimal.readFloat?_isSome hpointed
    rw [Option.getD_some] at hread
    rw [hread] at hsome
    cases hsome

/-- An integer beyond 63 bits is refused where an expression begins with it. -/
theorem runOn_exprOver_of_misread {c : Cursor} (hdepth : c.depth < maxNesting)
    (hkind : c.current.kind = .integer)
    (hread : Decimal.readInt64? (c.current.text.getD "").toList = none) (least : Nat) :
    (exprOver least).runOn c =
      (.error (.numberOutOfRange (c.current.text.getD "") c.current.start), c) := by
  have hnumber (levels : Nat) : (atom (primary levels)).runOn { c with depth := c.depth + 1 } =
      (.error (.numberOutOfRange (c.current.text.getD "") c.current.start),
        { c with depth := c.depth + 1 }) := by
    have hkind' : { c with depth := c.depth + 1 }.current.kind = .integer := hkind
    have hread' : Decimal.readInt64?
        ({ c with depth := c.depth + 1 }.current.text.getD "").toList = none := hread
    rw [runOn_atom, hkind']
    simp only [number, runOn_bind_ok (runOn_current _), hread', runOn_throw]
    rfl
  have hprimary : (primary maxNesting).runOn c =
      (.error (.numberOutOfRange (c.current.text.getD "") c.current.start), c) := by
    rw [maxNesting, primary, runOn_nested, if_neg (Nat.not_le_of_lt hdepth), hnumber]
    rfl
  rw [exprOver, operatorLevels, operators, runOn_bind_error hprimary]

theorem lawfulExpr_refusesInteger :
    LawfulExpr (RefusesInteger ts) (SeesLexed ts) fun _ => True where
  advance c hc t ht := hc t (List.cons_subset_cons _ (List.tail_sublist _).subset ht)
  named _ _ _ _ := trivial
  unexpected expected c _ := by
    intro lit offset he
    rw [Cursor.unexpected] at he
    split at he <;> cases he
  ofParam _ _ _ _ _ _ _ := by constructor <;> intro lit offset he <;> cases he
  height _ _ hc := hc
  depth _ _ hc := hc
  faultDepth _ _ _ he := he
  number c hc h := refusesInteger_of_misread hc.current.1 hc.current.2 h c
  nesting _ _ _ lit offset he := by cases he

end Parse

namespace Program

variable {lit : String} {offset : Nat}

theorem seesLexed_ofTokens (h : Token.ofText text = .ok ts) :
    Parse.SeesLexed ts (Cursor.ofTokens ts) := by
  obtain ⟨init, stop, rfl, hinit⟩ := Token.scan_shape h
  have hall : ∀ t ∈ init ++ [Token.atEnd stop],
      t ∈ init ++ [Token.atEnd stop] ∧ t.terminal.Lexed := by
    intro t ht
    refine ⟨ht, ?_⟩
    obtain ht | ht := List.mem_append.mp ht
    · exact (hinit t ht).2
    · rw [List.mem_singleton.mp ht]
      exact rfl
  refine List.forall_mem_cons.mpr ⟨hall _ ?_, hall⟩
  simp [Cursor.ofTokens, Cursor.atIndex]

/-- A numeral that is refused is an integer beyond 63 bits, and it is reported where it stands. -/
theorem refuses_integer (h : ofText text = .error (.parse (.numberOutOfRange lit offset))) :
    ∃ ts, Token.ofText text = .ok ts ∧ ∃ t ∈ ts, t.kind = .integer ∧ t.text = some lit ∧
      t.start = offset ∧ 2 ^ 63 ≤ Nat.ofDigitChars 10 lit.toList 0 := by
  unfold ofText at h
  split at h
  case h_1 => cases h
  case h_2 ts htokens =>
    refine ⟨ts, htokens, ?_⟩
    split at h
    case h_1 hparse =>
      cases h
      obtain ⟨c, hrun⟩ := ofTokens_eq_error.mp hparse
      have hends := Parse.lawfulExpr_refusesInteger.program _ (seesLexed_ofTokens htokens)
      rw [hrun] at hends
      exact hends lit offset rfl
    case h_2 => cases h

/-- What a text that is read as a program has for numbers, and which numerals are refused: integers
beyond 63 bits where they stand, and no floats. -/
theorem numbers_of_text (text : String) :
    (∀ p, ofText text = .ok p → ∃ ts, Token.ofText text = .ok ts ∧
      List.Forall₂ Token.Denotes (ts.filter Token.IsNumeral) p.numbers) ∧
    (∀ lit offset, ofText text = .error (.parse (.numberOutOfRange lit offset)) →
      ∃ ts, Token.ofText text = .ok ts ∧ ∃ t ∈ ts, t.kind = .integer ∧ t.text = some lit ∧
        t.start = offset ∧ 2 ^ 63 ≤ Nat.ofDigitChars 10 lit.toList 0) ∧
    ∀ least (c : Cursor), c.depth < maxNesting → c.current.kind = .integer →
      c.current.terminal.Lexed →
      2 ^ 63 ≤ Nat.ofDigitChars 10 (c.current.text.getD "").toList 0 →
      (Parse.exprOver least).runOn c =
        (.error (.numberOutOfRange (c.current.text.getD "") c.current.start), c) := by
  refine ⟨fun p h => ?_, fun lit offset h => refuses_integer h, ?_⟩
  · obtain ⟨ts, htext, htokens⟩ := ofText_eq_ok.mp h
    exact ⟨ts, htext, denotes_numbers htext htokens⟩
  · intro least c hdepth hkind hlexed hlarge
    have hread := (Token.readInt64?_eq_none hkind hlexed).mpr hlarge
    exact Parse.runOn_exprOver_of_misread hdepth hkind hread least

theorem exists_of_map_numbers {vs : List Value}
    (h : (ofText text).toOption.map numbers = some vs) :
    ∃ p, ofText text = .ok p ∧ p.numbers = vs := by
  cases hp : ofText text with
  | error e => simp [hp, Except.toOption] at h
  | ok p => exact ⟨p, rfl, by simpa [hp, Except.toOption] using h⟩

/-- An integer and a float that are read, and an integer that is refused. -/
theorem numbers_of_text_small :
    (∃ ts, Token.ofText "var x = -7 + 2.5;" = .ok ts ∧
      List.Forall₂ Token.Denotes (ts.filter Token.IsNumeral) [.int 7, .float 2.5]) ∧
    ∃ ts, Token.ofText "var x = 9223372036854775808;" = .ok ts ∧
      ∃ t ∈ ts, t.kind = .integer ∧ t.start = 8 := by
  constructor
  · obtain ⟨p, hp, hnumbers⟩ := exists_of_map_numbers
      (show (ofText "var x = -7 + 2.5;").toOption.map numbers = some [.int 7, .float 2.5] by
        decide +kernel)
    rw [← hnumbers]
    exact (numbers_of_text _).1 p hp
  · have herror : ofText "var x = 9223372036854775808;" =
        .error (.parse (.numberOutOfRange "9223372036854775808" 8)) := by decide +kernel
    obtain ⟨ts, htext, t, ht, hkind, -, hstart, -⟩ := (numbers_of_text _).2.1 _ _ herror
    exact ⟨ts, htext, t, ht, hkind, hstart⟩

/-- The derivation of a variable that a float initializes. -/
def declaredFloat (lit : String) : Derivation :=
  ⟨[.var "x" (some (.mk (.mk (.literal (.float lit)) .done) .done))]⟩

theorem admissible_declaredFloat (lit : String) : (declaredFloat lit).Admissible := by
  refine List.forall_mem_singleton.mpr ⟨?_, nofun, ?_, ?_⟩
  · simp [Declaration.yield, initializer, Grammar.Sum.yield, Term.yield, Factor.yield,
      TermTail.yield, SumTail.yield, Literal.terminal, Terminal.InRange]
  · simp [Declaration.tree, Decl.exprs, Grammar.Sum.tree, Term.tree, Factor.tree, TermTail.onto,
      SumTail.onto, Literal.tree, Expr.height, maxNesting]
  · simp [Declaration.nestings, initializerNesting, Grammar.Sum.nesting, Term.nesting,
      Factor.nesting, TermTail.nesting, SumTail.nesting, maxNesting]

theorem isIdentifier_x : Token.IsIdentifier "x" :=
  ⟨⟨'x', [], rfl, rfl, List.forall_mem_nil _⟩, by decide⟩

/-- The text of a variable that a float initializes. -/
theorem scans_declaredFloat {cs : List Char} (h : Decimal.IsPointed cs) :
    Token.Scans ("var x = " ++ String.ofList cs ++ ";").toList
      (declaredFloat (String.ofList cs)).yield := by
  have hsemicolon : Token.Kind.semicolon.isMark := rfl
  have hequals : Token.Kind.equals.isMark := rfl
  have hvar : Token.Kind.varWord.isMark := rfl
  have hend := Token.scans_nil.token (Token.lexes_mark hsemicolon) (by simp)
  have hfloat := (hend.token (Token.lexes_float h) (by rintro _ ⟨⟩; rfl)).space
  have hvalue := (hfloat.token (Token.lexes_mark hequals) fun _ _ => rfl).space
  have hdecl := (hvalue.token isIdentifier_x.lexes (by rintro _ ⟨⟩; rfl)).space
  have hscans := hdecl.token (Token.lexes_mark hvar) (by rintro _ ⟨⟩; rfl)
  rw [String.toList_append, String.toList_append, @String.toList_ofList cs, List.append_assoc]
  exact hscans

/-- A float is read from its text whatever its digits are. -/
theorem ofText_declaredFloat {cs : List Char} (h : Decimal.IsPointed cs) {x : Float}
    (hx : Decimal.readFloat? cs = some x) :
    ofText ("var x = " ++ String.ofList cs ++ ";") = .ok ⟨[.var "x" (some (.float x))]⟩ := by
  obtain ⟨tokens, htokens, hterminals⟩ := (scans_declaredFloat h).ofText
  have htree : (declaredFloat (String.ofList cs)).tree = ⟨[.var "x" (some (.float x))]⟩ := by
    simp [declaredFloat, Derivation.tree, Declaration.tree, Grammar.Sum.tree, Term.tree,
      Factor.tree, TermTail.onto, SumTail.onto, Literal.tree, hx]
  refine ofText_eq_ok.mpr ⟨tokens, htokens, ?_⟩
  rw [← htree]
  refine ofTokens_of_derivation hterminals (fun t ht => ?_) (admissible_declaredFloat _)
  obtain ⟨init, stop, rfl, hinit⟩ := Token.scan_shape htokens
  rw [← Derivation.Spells.terminals_init hterminals] at ht
  obtain ⟨token, hmem, rfl⟩ := List.mem_map.mp ht
  exact (hinit token hmem).2

/-- A float whose numeral is ten to the power 310 is not refused. It is infinite. -/
theorem float_beyond_range :
    let digits := '1' :: List.replicate 310 '0'
    2 ^ 1024 ≤ Decimal.pointedValue digits ['0'] ∧
      ofText ("var x = " ++ String.ofList (digits ++ ['.', '0']) ++ ";") =
        .ok ⟨[.var "x" (some (.float Decimal.infinity))]⟩ ∧
      ¬ Decimal.infinity.isFinite := by
  intro digits
  have hwhole : Decimal.IsWhole digits := by
    refine ⟨List.cons_ne_nil _ _, List.forall_mem_cons.mpr ⟨rfl, fun c hc => ?_⟩⟩
    rw [List.eq_of_mem_replicate hc]
    rfl
  have hzero : ∀ c ∈ ['0'], c.isDigit := List.forall_mem_singleton.mpr rfl
  have hlarge : 2 ^ 1024 ≤ Decimal.pointedValue digits ['0'] := by
    have hnat : 2 ^ 1024 * 10 ^ 1 ≤ Nat.ofDigitChars 10 (digits ++ ['0']) 0 := by decide +kernel
    have hcast : ((2 ^ 1024 * 10 ^ 1 : Nat) : ℚ) ≤ _ := Nat.cast_le.mpr hnat
    rw [Decimal.pointedValue, le_div_iff₀ (by positivity)]
    rwa [Nat.cast_mul, Nat.cast_pow, Nat.cast_pow] at hcast
  obtain ⟨x, hx, hfinite, hinfinite⟩ := Decimal.exists_readFloat? hwhole hzero
  have hbeyond : ¬ x.isFinite := by
    rw [hfinite, not_lt]
    exact (sub_le_self _ (by positivity)).trans hlarge
  obtain rfl := hinfinite hbeyond
  exact ⟨hlarge, ofText_declaredFloat ⟨digits, ['0'], hwhole, hzero, rfl⟩ hx, hbeyond⟩

end Program

end Scriptlet
