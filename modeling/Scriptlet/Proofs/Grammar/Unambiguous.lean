-- SUMMARY: The grammar is unambiguous: two derivations that spell the same terminals are equal.
import Scriptlet.Proofs.Grammar.Follow

/-!
# The grammar is unambiguous

Two expressions that spell the beginning of the same terminals are equal if each
ends where nothing goes on with it. What follows each of them is any list with
that property, so that the statement passes to the parts of an expression.
-/
namespace Scriptlet.Grammar

open Terminal (mark word)

/-! ## First terminals -/

theorem Literal.terminal_inj {l l' : Literal} (h : l.terminal = l'.terminal) : l = l' := by
  cases l <;> cases l' <;> simp_all [Literal.terminal]

theorem signKind_inj {s s' : UnaryOp} (h : signKind s = signKind s') : s = s' := by
  cases s <;> cases s' <;> simp_all [signKind]

theorem AddOp.kind_inj {a a' : AddOp} (h : a.kind = a'.kind) : a = a' := by
  cases a <;> cases a' <;> simp_all [AddOp.kind]

theorem MulOp.kind_inj {m m' : MulOp} (h : m.kind = m'.kind) : m = m' := by
  cases m <;> cases m' <;> simp_all [MulOp.kind]

theorem Factor.eq_literal {f : Factor} {l : Literal} (h : f.firstKind = l.terminal.kind) :
    ∃ l', f = .literal l' := by
  cases f with
  | literal l' => exact ⟨l', rfl⟩
  | signed sign _ => cases l <;> cases sign <;> cases h
  | _ => cases l <;> cases h

theorem Factor.eq_name_or_call {f : Factor} (h : f.firstKind = .identifier) :
    (∃ x, f = .name x) ∨ ∃ c, f = .call c := by
  cases f with
  | name x => exact .inl ⟨x, rfl⟩
  | call c => exact .inr ⟨c, rfl⟩
  | literal l => cases l <;> cases h
  | signed sign _ => cases sign <;> cases h
  | parens _ => cases h

theorem Factor.eq_signed {f : Factor} {sign : UnaryOp} (h : f.firstKind = signKind sign) :
    ∃ sign' g, f = .signed sign' g := by
  cases f with
  | signed sign' g => exact ⟨sign', g, rfl⟩
  | literal l => cases l <;> cases sign <;> cases h
  | _ => cases sign <;> cases h

theorem Factor.eq_parens {f : Factor} (h : f.firstKind = .openParen) : ∃ s, f = .parens s := by
  cases f with
  | parens s => exact ⟨s, rfl⟩
  | literal l => cases l <;> cases h
  | signed sign _ => cases sign <;> cases h
  | _ => cases h

/-- A name before a parenthesis is not all of an expression. -/
theorem Call.yield_ne_name {c : Call} {x : String} {r r' : List Terminal} (hr : Follows 4 r) :
    c.yield ++ r' ≠ word x :: r := by
  obtain ⟨y, ts, hc⟩ := c.yield_eq
  rw [hc]
  intro h
  obtain ⟨-, rfl⟩ := List.cons.inj h
  exact hr.noParen rfl

/-! ## Expressions -/

mutual

theorem Factor.eq_of_yield (f f' : Factor) {r r' : List Terminal}
    (h : f.yield ++ r = f'.yield ++ r')
    (hr : Follows 4 r) (hr' : Follows 4 r') : f = f' ∧ r = r' := by
  have hfirst : f'.firstKind = f.firstKind := by
    rw [← f.firstKind_yield r, h, f'.firstKind_yield r']
  cases f with
  | literal l =>
    obtain ⟨l', rfl⟩ := Factor.eq_literal hfirst
    obtain ⟨hl, hr⟩ := List.cons.inj h
    exact ⟨congrArg _ (Literal.terminal_inj hl), hr⟩
  | name x =>
    obtain ⟨x', rfl⟩ | ⟨c, rfl⟩ := Factor.eq_name_or_call hfirst
    · simpa [Factor.yield] using h
    · exact absurd h.symm (Call.yield_ne_name hr)
  | call c =>
    obtain ⟨x', rfl⟩ | ⟨c', rfl⟩ := Factor.eq_name_or_call hfirst
    · exact absurd h (Call.yield_ne_name hr')
    · obtain ⟨hc, hr⟩ := Call.eq_of_yield c c' h
      exact ⟨congrArg _ hc, hr⟩
  | signed sign f =>
    obtain ⟨sign', f', rfl⟩ := Factor.eq_signed hfirst
    obtain ⟨-, htail⟩ := List.cons.inj h
    obtain ⟨hf, hr⟩ := Factor.eq_of_yield f f' htail hr hr'
    rw [signKind_inj hfirst, hf]
    exact ⟨rfl, hr⟩
  | parens s =>
    obtain ⟨s', rfl⟩ := Factor.eq_parens hfirst
    simp only [Factor.yield, List.cons_append, List.append_assoc, List.cons.injEq] at h
    obtain ⟨-, htail⟩ := h
    obtain ⟨hs, hr⟩ := Sum.eq_of_yield s s' htail (follows_closeParen r) (follows_closeParen r')
    exact ⟨congrArg _ hs, (List.cons.inj hr).2⟩

theorem Call.eq_of_yield (c c' : Call) {r r' : List Terminal}
    (h : c.yield ++ r = c'.yield ++ r') :
    c = c' ∧ r = r' := by
  cases c with
  | plain x =>
    cases c' with
    | plain x' => simpa [Call.yield] using h
    | applied x' args =>
      simp only [Call.yield, List.cons_append, List.cons.injEq, List.append_assoc] at h
      exact absurd (congrArg firstKind h.2.2).symm (args.firstKind_yield_ne _)
  | applied x args =>
    cases c' with
    | plain x' =>
      simp only [Call.yield, List.cons_append, List.cons.injEq, List.append_assoc] at h
      exact absurd (congrArg firstKind h.2.2) (args.firstKind_yield_ne _)
    | applied x' args' =>
      simp only [Call.yield, List.cons_append, List.cons.injEq, List.append_assoc] at h
      obtain ⟨hx, -, hargs⟩ := h
      obtain ⟨hargs, hr⟩ := Args.eq_of_yield args args' hargs
      simp_all

/-- Arguments end at the closing parenthesis. -/
theorem Args.eq_of_yield (args args' : Args) {r r' : List Terminal}
    (h : args.yield ++ mark .closeParen :: r = args'.yield ++ mark .closeParen :: r') :
    args = args' ∧ r = r' := by
  cases args with
  | last s =>
    cases args' with
    | last s' =>
      obtain ⟨hs, hr⟩ := Sum.eq_of_yield s s' h (follows_closeParen r) (follows_closeParen r')
      exact ⟨congrArg _ hs, (List.cons.inj hr).2⟩
    | more s' args' =>
      rw [Args.yield, Args.yield, List.append_assoc] at h
      obtain ⟨-, hr⟩ := Sum.eq_of_yield s s' h (follows_closeParen r) (follows_comma _)
      cases hr
  | more s args =>
    cases args' with
    | last s' =>
      rw [Args.yield, Args.yield, List.append_assoc] at h
      obtain ⟨-, hr⟩ := Sum.eq_of_yield s s' h (follows_comma _) (follows_closeParen r')
      cases hr
    | more s' args' =>
      rw [Args.yield, Args.yield, List.append_assoc, List.append_assoc] at h
      obtain ⟨hs, hr⟩ := Sum.eq_of_yield s s' h (follows_comma _) (follows_comma _)
      obtain ⟨hargs, hr⟩ := Args.eq_of_yield args args' (List.cons.inj hr).2
      rw [hs, hargs]
      exact ⟨rfl, hr⟩

theorem Term.eq_of_yield (t t' : Term) {r r' : List Terminal}
    (h : t.yield ++ r = t'.yield ++ r')
    (hr : Follows 2 r) (hr' : Follows 2 r') : t = t' ∧ r = r' := by
  cases t with
  | mk f tail =>
    cases t' with
    | mk f' tail' =>
      rw [Term.yield, Term.yield, List.append_assoc, List.append_assoc] at h
      obtain ⟨hf, htail⟩ :=
        Factor.eq_of_yield f f' h (follows_termTail tail hr) (follows_termTail tail' hr')
      obtain ⟨htail, hr⟩ := TermTail.eq_of_yield tail tail' htail hr hr'
      rw [hf, htail]
      exact ⟨rfl, hr⟩

theorem TermTail.eq_of_yield (tail tail' : TermTail) {r r' : List Terminal}
    (h : tail.yield ++ r = tail'.yield ++ r')
    (hr : Follows 2 r) (hr' : Follows 2 r') : tail = tail' ∧ r = r' := by
  cases tail with
  | done =>
    cases tail' with
    | done => exact ⟨rfl, h⟩
    | more m' f' tail' =>
      change r = mark m'.kind :: _ at h
      rw [h] at hr
      exact absurd hr (not_follows_mul (by decide))
  | more m f tail =>
    cases tail' with
    | done =>
      change mark m.kind :: _ = r' at h
      rw [← h] at hr'
      exact absurd hr' (not_follows_mul (by decide))
    | more m' f' tail' =>
      simp only [TermTail.yield, List.cons_append, List.cons.injEq, List.append_assoc] at h
      obtain ⟨hm, h⟩ := h
      obtain ⟨hf, htail⟩ :=
        Factor.eq_of_yield f f' h (follows_termTail tail hr) (follows_termTail tail' hr')
      obtain ⟨htail, hr⟩ := TermTail.eq_of_yield tail tail' htail hr hr'
      rw [hf, htail, MulOp.kind_inj (congrArg Terminal.kind hm)]
      exact ⟨rfl, hr⟩

theorem Sum.eq_of_yield (s s' : Grammar.Sum) {r r' : List Terminal}
    (h : s.yield ++ r = s'.yield ++ r')
    (hr : Follows 0 r) (hr' : Follows 0 r') : s = s' ∧ r = r' := by
  cases s with
  | mk t tail =>
    cases s' with
    | mk t' tail' =>
      rw [Sum.yield, Sum.yield, List.append_assoc, List.append_assoc] at h
      obtain ⟨ht, htail⟩ :=
        Term.eq_of_yield t t' h (follows_sumTail tail hr) (follows_sumTail tail' hr')
      obtain ⟨htail, hr⟩ := SumTail.eq_of_yield tail tail' htail hr hr'
      rw [ht, htail]
      exact ⟨rfl, hr⟩

theorem SumTail.eq_of_yield (tail tail' : SumTail) {r r' : List Terminal}
    (h : tail.yield ++ r = tail'.yield ++ r')
    (hr : Follows 0 r) (hr' : Follows 0 r') : tail = tail' ∧ r = r' := by
  cases tail with
  | done =>
    cases tail' with
    | done => exact ⟨rfl, h⟩
    | more a' t' tail' =>
      change r = mark a'.kind :: _ at h
      rw [h] at hr
      exact absurd hr (not_follows_add (by decide))
  | more a t tail =>
    cases tail' with
    | done =>
      change mark a.kind :: _ = r' at h
      rw [← h] at hr'
      exact absurd hr' (not_follows_add (by decide))
    | more a' t' tail' =>
      simp only [SumTail.yield, List.cons_append, List.cons.injEq, List.append_assoc] at h
      obtain ⟨ha, h⟩ := h
      obtain ⟨ht, htail⟩ :=
        Term.eq_of_yield t t' h (follows_sumTail tail hr) (follows_sumTail tail' hr')
      obtain ⟨htail, hr⟩ := SumTail.eq_of_yield tail tail' htail hr hr'
      rw [ht, htail, AddOp.kind_inj (congrArg Terminal.kind ha)]
      exact ⟨rfl, hr⟩

end

/-! ## Statements -/

theorem initializer_eq {s s' : Option Grammar.Sum} {r r' : List Terminal}
    (h : initializer s ++ r = initializer s' ++ r') (hr : Follows 0 r) (hr' : Follows 0 r')
    (hne : firstKind r ≠ .equals) (hne' : firstKind r' ≠ .equals) : s = s' ∧ r = r' := by
  cases s with
  | none =>
    cases s' with
    | none => exact ⟨rfl, h⟩
    | some s' =>
      change r = mark .equals :: _ at h
      exact absurd (congrArg firstKind h) hne
  | some s =>
    cases s' with
    | none =>
      change mark .equals :: _ = r' at h
      exact absurd (congrArg firstKind h).symm hne'
    | some s' =>
      simp only [initializer, List.cons_append, List.cons.injEq] at h
      obtain ⟨hs, hr⟩ := Sum.eq_of_yield s s' h.2 hr hr'
      exact ⟨congrArg _ hs, hr⟩

/-- An expression before a semicolon. -/
theorem eq_of_semicolon {s s' : Grammar.Sum} {r r' : List Terminal}
    (h : s.yield ++ mark .semicolon :: r = s'.yield ++ mark .semicolon :: r') :
    s = s' ∧ r = r' := by
  obtain ⟨hs, hr⟩ := Sum.eq_of_yield s s' h (follows_semicolon r) (follows_semicolon r')
  exact ⟨hs, (List.cons.inj hr).2⟩

theorem initializer_eq_of_semicolon {s s' : Option Grammar.Sum} {r r' : List Terminal}
    (h : initializer s ++ mark .semicolon :: r = initializer s' ++ mark .semicolon :: r') :
    s = s' ∧ r = r' := by
  obtain ⟨hs, hr⟩ := initializer_eq h (follows_semicolon r) (follows_semicolon r')
    (by simp [firstKind]) (by simp [firstKind])
  exact ⟨hs, (List.cons.inj hr).2⟩

/-- A call is no assignment. -/
theorem Call.yield_ne_assign {c : Call} {x : String} {r r' : List Terminal} :
    c.yield ++ r ≠ word x :: mark .equals :: r' := by
  obtain ⟨y, ts, hc⟩ := c.yield_eq
  simp [hc]

theorem Statement.eq_of_yield (s s' : Statement) {r r' : List Terminal}
    (h : s.yield ++ r = s'.yield ++ r') : s = s' ∧ r = r' := by
  have hfirst : s.firstKind = s'.firstKind := by
    rw [← s.firstKind_yield r, h, s'.firstKind_yield r']
  cases s <;> cases s' <;> cases hfirst
  case const.const x e x' e' =>
    simp only [yield, List.cons_append, List.append_assoc, List.cons.injEq] at h
    obtain ⟨-, hx, -, h⟩ := h
    obtain ⟨rfl, hr⟩ := eq_of_semicolon h
    simp_all
  case var.var x e x' e' =>
    simp only [yield, List.cons_append, List.append_assoc, List.cons.injEq] at h
    obtain ⟨-, hx, h⟩ := h
    obtain ⟨rfl, hr⟩ := initializer_eq_of_semicolon h
    simp_all
  case assign.assign x e x' e' =>
    simp only [yield, List.cons_append, List.append_assoc, List.cons.injEq] at h
    obtain ⟨hx, -, h⟩ := h
    obtain ⟨rfl, hr⟩ := eq_of_semicolon h
    simp_all
  case ret.ret e e' =>
    simp only [yield, List.cons_append, List.append_assoc, List.cons.injEq] at h
    obtain ⟨-, h⟩ := h
    obtain ⟨rfl, hr⟩ := eq_of_semicolon h
    exact ⟨rfl, hr⟩
  case call.call c c' =>
    rw [yield, yield, List.append_assoc, List.append_assoc] at h
    obtain ⟨rfl, hr⟩ := Call.eq_of_yield c c' h
    exact ⟨rfl, (List.cons.inj hr).2⟩
  case assign.call x e c =>
    rw [yield, yield, List.append_assoc] at h
    exact absurd h.symm Call.yield_ne_assign
  case call.assign c x e =>
    rw [yield, yield, List.append_assoc] at h
    exact absurd h Call.yield_ne_assign

/-- Pieces that show their own end are told apart in a row, up to where no piece begins. -/
theorem eq_of_flatMap {α : Type} {yield : α → List Terminal}
    (hunique : ∀ a a' {r r'}, yield a ++ r = yield a' ++ r' → a = a' ∧ r = r')
    {l l' : List α} {r r' : List Terminal}
    (hr : ∀ a ts, firstKind (yield a ++ ts) ≠ firstKind r)
    (hr' : ∀ a ts, firstKind (yield a ++ ts) ≠ firstKind r')
    (h : l.flatMap yield ++ r = l'.flatMap yield ++ r') : l = l' ∧ r = r' := by
  induction l generalizing l' with
  | nil =>
    cases l' with
    | nil => exact ⟨rfl, h⟩
    | cons a' l' =>
      rw [List.flatMap_nil, List.nil_append, List.flatMap_cons, List.append_assoc] at h
      exact absurd (congrArg firstKind h).symm (hr a' _)
  | cons a l ih =>
    cases l' with
    | nil =>
      rw [List.flatMap_nil, List.nil_append, List.flatMap_cons, List.append_assoc] at h
      exact absurd (congrArg firstKind h) (hr' a _)
    | cons a' l' =>
      rw [List.flatMap_cons, List.flatMap_cons, List.append_assoc, List.append_assoc] at h
      obtain ⟨ha, hmore⟩ := hunique a a' h
      obtain ⟨hl, hr⟩ := ih hmore
      exact ⟨by rw [ha, hl], hr⟩

theorem body_eq {ss ss' : List Statement} {r r' : List Terminal}
    (h : ss.flatMap Statement.yield ++ mark .closeBrace :: r =
      ss'.flatMap Statement.yield ++ mark .closeBrace :: r') : ss = ss' ∧ r = r' := by
  have hstop (s : Statement) (ts r : List Terminal) :
      firstKind (s.yield ++ ts) ≠ firstKind (mark .closeBrace :: r) := by
    rw [s.firstKind_yield]
    cases s <;> simp [Statement.firstKind, firstKind]
  obtain ⟨hss, hr⟩ :=
    eq_of_flatMap Statement.eq_of_yield (fun s ts => hstop s ts r) (fun s ts => hstop s ts r') h
  exact ⟨hss, (List.cons.inj hr).2⟩

/-! ## Declarations -/

theorem Param.eq_of_yield (p p' : Param) {r r' : List Terminal}
    (h : p.yield ++ r = p'.yield ++ r') (hr : Follows 0 r) (hr' : Follows 0 r')
    (hne : firstKind r ≠ .equals) (hne' : firstKind r' ≠ .equals) : p = p' ∧ r = r' := by
  rcases p with ⟨x, s⟩
  rcases p' with ⟨x', s'⟩
  simp only [yield, List.cons_append, List.cons.injEq] at h
  obtain ⟨hx, h⟩ := h
  obtain ⟨rfl, hr⟩ := initializer_eq h hr hr' hne hne'
  simp_all

theorem paramList_eq {ps ps' : List Param} {r r' : List Terminal}
    (h : paramList ps ++ mark .closeParen :: r = paramList ps' ++ mark .closeParen :: r') :
    ps = ps' ∧ r = r' := by
  induction ps generalizing ps' with
  | nil =>
    cases ps' with
    | nil => exact ⟨rfl, (List.cons.inj h).2⟩
    | cons p' ps' => simp [paramList_cons, paramList, Param.yield] at h
  | cons p ps ih =>
    cases ps' with
    | nil => simp [paramList_cons, paramList, Param.yield] at h
    | cons p' ps' =>
      rw [paramList_cons, paramList_cons, List.append_assoc, List.append_assoc] at h
      obtain ⟨hfollow, hne⟩ := follows_paramTail ps r
      obtain ⟨hfollow', hne'⟩ := follows_paramTail ps' r'
      obtain ⟨hp, hmore⟩ := Param.eq_of_yield p p' h hfollow hfollow' hne hne'
      rw [hp]
      -- A comma goes on with the list, a parenthesis ends it.
      cases ps with
      | nil =>
        cases ps' with
        | nil => exact ⟨rfl, (List.cons.inj hmore).2⟩
        | cons q' ps' => simp [paramTail] at hmore
      | cons q ps =>
        cases ps' with
        | nil => simp [paramTail] at hmore
        | cons q' ps' =>
          obtain ⟨hps, hr⟩ := ih (List.cons.inj hmore).2
          exact ⟨congrArg _ hps, hr⟩

theorem FuncDecl.eq_of_yield (f f' : FuncDecl) {r r' : List Terminal}
    (h : f.yield ++ r = f'.yield ++ r') : f = f' ∧ r = r' := by
  rcases f with ⟨x, ps, ss⟩
  rcases f' with ⟨x', ps', ss'⟩
  simp only [yield, List.cons_append, List.append_assoc, List.cons.injEq] at h
  obtain ⟨-, hx, -, hparams⟩ := h
  obtain ⟨rfl, hbrace⟩ := paramList_eq hparams
  obtain ⟨rfl, hr⟩ := body_eq (List.cons.inj hbrace).2
  simp_all

theorem Declaration.eq_of_yield (d d' : Declaration) {r r' : List Terminal}
    (h : d.yield ++ r = d'.yield ++ r') : d = d' ∧ r = r' := by
  have hfirst : d.firstKind = d'.firstKind := by
    rw [← d.firstKind_yield r, h, d'.firstKind_yield r']
  cases d <;> cases d' <;> cases hfirst
  case const.const x e x' e' =>
    simp only [yield, List.cons_append, List.append_assoc, List.cons.injEq] at h
    obtain ⟨-, hx, -, h⟩ := h
    obtain ⟨rfl, hr⟩ := eq_of_semicolon h
    simp_all
  case var.var x e x' e' =>
    simp only [yield, List.cons_append, List.append_assoc, List.cons.injEq] at h
    obtain ⟨-, hx, h⟩ := h
    obtain ⟨rfl, hr⟩ := initializer_eq_of_semicolon h
    simp_all
  case func.func f f' =>
    obtain ⟨rfl, hr⟩ := FuncDecl.eq_of_yield f f' h
    exact ⟨rfl, hr⟩

/-- Two derivations that spell the same terminals are equal. -/
theorem Derivation.yield_inj {d d' : Derivation} (h : d.yield = d'.yield) : d = d' := by
  have hstop (g : Declaration) (ts : List Terminal) :
      firstKind (g.yield ++ ts) ≠ firstKind [] := by
    rw [g.firstKind_yield]
    cases g <;> simp [Declaration.firstKind, firstKind]
  have hnil : d.decls.flatMap Declaration.yield ++ [] = d'.decls.flatMap Declaration.yield ++ [] := by
    rw [List.append_nil, List.append_nil]
    exact h
  exact congrArg Derivation.mk (eq_of_flatMap Declaration.eq_of_yield hstop hstop hnil).1

end Scriptlet.Grammar
