-- SUMMARY: Every well-formed program can be written, and each text it is written as is read as that program.
import Scriptlet.Proofs.Parse.Agreement
import Scriptlet.Proofs.Writing.Program

/-!
# Reading what was written

The scanner gives back the terminals that a text was written from, and the parser
gives back the tree that the terminals were written from.
-/
namespace Scriptlet

open Grammar
open Terminal (mark word)

/-! ## Every well-formed program can be written -/

theorem Int64.exists_ofNat {v : Int64} (h : 0 ≤ v) : ∃ n < 2 ^ 63, Int64.ofNat n = v := by
  have hle : 0 ≤ v.toInt := Int64.le_iff_toInt_le.mp h
  have hlt := v.toInt_lt
  refine ⟨v.toInt.toNat, by omega, ?_⟩
  rw [← Int64.ofInt_eq_ofNat, Int.toNat_of_nonneg hle, Int64.ofInt_toInt]

mutual

theorem Expr.exists_written :
    (e : Expr) → e.WellFormed → ∀ least, ∃ ts, e.Written least ts
  | .null, _, _ => ⟨_, .null⟩
  | .int v, h, _ => by
    obtain ⟨n, hn, rfl⟩ := Int64.exists_ofNat h
    exact ⟨_, .int hn⟩
  | .float x, ⟨text, hpoint, hread⟩, _ => ⟨_, .float hpoint hread⟩
  | .string value, _, _ => ⟨_, .string value⟩
  | .name x, _, _ => ⟨_, .name x⟩
  | .unary op e, h, _ => by
    obtain ⟨ts, hts⟩ := e.exists_written h 4
    exact ⟨_, .unary hts⟩
  | .binary op l r, ⟨hl, hr⟩, least => by
    obtain ⟨ts, hts⟩ := l.exists_written hl op.bindingPower.1
    obtain ⟨us, hus⟩ := r.exists_written hr op.bindingPower.2
    by_cases hplace : least ≤ op.bindingPower.1
    · exact ⟨_, .binary hts hus hplace⟩
    · exact ⟨_, .parens hts hus (Nat.lt_of_not_le hplace)⟩
  | .call callee args, ⟨⟨x, hx, _⟩, hargs⟩, _ => by
    obtain ⟨tss, htss⟩ := Expr.exists_writtenAll args hargs
    rw [hx]
    exact ⟨_, .call htss⟩

theorem Expr.exists_writtenAll :
    (es : List Expr) → Expr.AllWellFormed es → ∃ tss, Expr.WrittenAll es tss
  | [], _ => ⟨_, .nil⟩
  | e :: es, ⟨he, hes⟩ => by
    obtain ⟨ts, hts⟩ := e.exists_written he 0
    obtain ⟨tss, htss⟩ := Expr.exists_writtenAll es hes
    exact ⟨_, .cons hts htss⟩

end

theorem exists_forall₂ {α : Type} {R : α → List Terminal → Prop} {l : List α}
    (h : ∀ a ∈ l, ∃ ts, R a ts) : ∃ tss, l.Forall₂ R tss := by
  induction l with
  | nil => exact ⟨[], .nil⟩
  | cons a l ih =>
    obtain ⟨⟨ts, hts⟩, htail⟩ := List.forall_mem_cons.mp h
    obtain ⟨tss, htss⟩ := ih htail
    exact ⟨ts :: tss, .cons hts htss⟩

theorem Stmt.exists_written {s : Stmt} (h : s.WellFormed) : ∃ ts, s.Written ts := by
  cases s with
  | const x e =>
    obtain ⟨ts, hts⟩ := e.exists_written h.2 0
    exact ⟨_, .const hts⟩
  | var x e =>
    obtain ⟨ts, hts⟩ := e.exists_written h.2 0
    exact ⟨_, .var hts⟩
  | assign x e =>
    obtain ⟨ts, hts⟩ := e.exists_written h.2 0
    exact ⟨_, .assign hts⟩
  | ret e =>
    obtain ⟨ts, hts⟩ := e.exists_written h 0
    exact ⟨_, .ret hts⟩
  | expr e =>
    obtain ⟨⟨callee, args, rfl⟩, he⟩ := h
    obtain ⟨ts, hts⟩ := Expr.exists_written _ he 0
    exact ⟨_, .call hts⟩

theorem Function.exists_written {f : Function} (h : f.WellFormed) : ∃ ts, f.Written ts := by
  have hdefaults : ∀ o ∈ f.optional, ∃ ts, o.Written ts := by
    intro o ho
    obtain ⟨ts, hts⟩ := o.default.exists_written (h.defaults o ho) 0
    exact ⟨_, .mk hts⟩
  obtain ⟨optional, hoptional⟩ := exists_forall₂ hdefaults
  obtain ⟨body, hbody⟩ := exists_forall₂ fun s hs => Stmt.exists_written (h.body s hs)
  exact ⟨_, .mk hoptional hbody⟩

theorem Decl.exists_written {d : Decl} (h : d.WellFormed) : ∃ ts, d.Written ts := by
  cases d with
  | const x e =>
    obtain ⟨ts, hts⟩ := e.exists_written h.2 0
    exact ⟨_, .const hts⟩
  | var x e =>
    cases e with
    | none => exact ⟨_, .varNone x⟩
    | some e =>
      obtain ⟨ts, hts⟩ := e.exists_written (h.2 e rfl) 0
      exact ⟨_, .var hts⟩
  | func f =>
    obtain ⟨ts, hts⟩ := Function.exists_written h
    exact ⟨_, .func hts⟩

theorem Program.exists_written {p : Program} (h : p.WellFormed) : ∃ ts, p.Written ts := by
  obtain ⟨tss, htss⟩ := exists_forall₂ fun d hd => Decl.exists_written (h.decls d hd)
  exact ⟨_, tss, htss, rfl⟩

/-! ## What is written is scanned -/

theorem scan_spaced {ts : List Terminal} (h : ∀ t ∈ ts, t.Spellable) (offset : Nat) :
    ∃ tokens, Token.scan offset (spaced (ts.map Terminal.spelling)) = .ok tokens ∧
      tokens.map Token.terminal = ts ++ [mark .endOfInput] := by
  induction ts generalizing offset with
  | nil => exact ⟨_, Token.scan_nil offset, rfl⟩
  | cons t ts ih =>
    obtain ⟨ht, hts⟩ := List.forall_mem_cons.mp h
    cases ts with
    | nil =>
      have hend := Token.scan_nil (offset + Text.byteLength t.spelling)
      have hseparates : Token.Separates [] := by
        intro c hc
        cases hc
      have hscan := Token.scan_spelling ht hseparates hend
      rw [List.append_nil] at hscan
      exact ⟨_, hscan, rfl⟩
    | cons u us =>
      obtain ⟨tokens, hscan, hterminals⟩ := ih hts (offset + Text.byteLength t.spelling + 1)
      rw [← Token.scan_space] at hscan
      have hseparates : Token.Separates (' ' :: spaced ((u :: us).map Terminal.spelling)) := by
        intro c hc
        cases hc
        exact .inl rfl
      refine ⟨_, Token.scan_spelling ht hseparates hscan, ?_⟩
      rw [List.map_cons, hterminals]
      rfl

/-- A well-formed program can be written, and every text it is written as is read as that
program. -/
theorem Program.ofText_sourceText {p : Program} (h : p.WellFormed) :
    (∃ ts, p.Written ts) ∧ ∀ ts, p.Written ts → Program.ofText (Terminal.sourceText ts) = .ok p := by
  refine ⟨Program.exists_written h, fun ts hts => ?_⟩
  obtain ⟨d, hyield, rfl, hadm, hw⟩ := hts.exists_derivation h
  obtain ⟨tokens, hscan, hterminals⟩ := scan_spaced (fun t ht => (hw t ht).spellable) 0
  have htext : Token.ofText (Terminal.sourceText ts) = .ok tokens := by
    rw [Token.ofText, Terminal.sourceText, String.toList_ofList]
    exact hscan
  have hparse : Program.ofTokens tokens = .ok d.tree := by
    refine Program.ofTokens_of_derivation (by rw [Derivation.Spells, hyield]; exact hterminals)
      (fun t ht => ?_) hadm
    exact (hw t (hyield ▸ ht)).spellable.lexed
  exact Program.ofText_eq_ok.mpr ⟨tokens, htext, hparse⟩

/-- A text with parentheses that the tree needs, and a quote in a string. -/
theorem Program.ofText_small_text :
    Program.ofText "var x = ( 1 + y ) * f ( \"a\\\"\" ) ;" = .ok ⟨[.var "x" (some
      (.binary .mul (.binary .add (.int 1) (.name "y"))
        (.call (.name "f") [.string "a\""])))]⟩ := by
  have hx : Token.IsIdentifier "x" := ⟨⟨'x', [], rfl, rfl, nofun⟩, by decide⟩
  have hy : Token.IsIdentifier "y" := ⟨⟨'y', [], rfl, rfl, nofun⟩, by decide⟩
  have hf : Token.IsIdentifier "f" := ⟨⟨'f', [], rfl, rfl, nofun⟩, by decide⟩
  have hdecl : Decl.WellFormed (.var "x" (some (.binary .mul (.binary .add (.int 1) (.name "y"))
      (.call (.name "f") [.string "a\""])))) := by
    refine ⟨hx, fun v hv => ?_⟩
    cases hv
    exact ⟨⟨show (0 : Int64) ≤ 1 by decide, hy⟩, ⟨"f", rfl, hf⟩, trivial, trivial⟩
  have hwritten : Program.Written ⟨[.var "x" (some (.binary .mul
      (.binary .add (.int 1) (.name "y")) (.call (.name "f") [.string "a\""])))]⟩ _ :=
    ⟨_, .cons (.var (.binary (.parens (.int (n := 1) (by decide)) (.name "y") (by decide))
      (.call (.cons (.string "a\"") .nil)) (by decide))) .nil, rfl⟩
  exact (Program.ofText_sourceText ⟨by simpa using hdecl, by decide⟩).2 _ hwritten

end Scriptlet
