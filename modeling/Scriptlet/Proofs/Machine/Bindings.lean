-- SUMMARY: What names stand for lasts from run to run: nothing is undeclared, declared anew or changed in kind.
import Scriptlet.Proofs.Machine.Effects
import Scriptlet.Proofs.Machine.Session

/-!
# Bindings of a session

Global variables, functions and builtins share one space of names. A machine that is
orderly uses each name once in it. Every step of a run keeps a machine orderly and
retains what names stand for, and so does a run that stops anywhere, since a run stops
after some of its steps.
-/
namespace Scriptlet

open Scriptlet.Action Semantics

theorem Table.contains_insert {α : Type} (t : Table α) (name other : String) (a : α) :
    (t.insert name a).contains other = (decide (other = name) || t.contains other) := by
  unfold Table.contains
  rw [Table.get?_insert]
  by_cases h : other = name <;> simp [h]

theorem Scope.Updates.contains_eq {s t : Scope} (h : s.Updates t) (x : String) :
    t.contains x = s.contains x := by
  have hx := h x
  unfold Table.contains
  generalize s.get? x = b at *
  generalize t.get? x = c at *
  cases hx <;> rfl

theorem Scope.Updates.exists_get? {s t : Scope} (h : s.Updates t) {x : String} {b : Binding}
    (hb : s.get? x = some b) : ∃ c, t.get? x = some c ∧ b.Becomes c := by
  have hx := h x
  rw [hb] at hx
  generalize t.get? x = c at *
  cases hx with
  | some hc => exact ⟨_, rfl, hc⟩

theorem Scope.Updates.exists_get?_of_get? {s t : Scope} (h : s.Updates t) {x : String} {c : Binding}
    (hc : t.get? x = some c) : ∃ b, s.get? x = some b ∧ b.Becomes c := by
  have hx := h x
  rw [hc] at hx
  generalize s.get? x = b at *
  cases hx with
  | some hb => exact ⟨_, rfl, hb⟩

namespace Machine

/-! ## Machines between runs -/

/-- No call is active, nothing is evaluated, and each name stands for one thing. -/
structure Orderly (m : Machine) : Prop where
  frames : m.frames = []
  depth : m.depth = 0
  /-- A function is found under its own name. -/
  ident : ∀ x f, m.functions.get? x = some f → f.ident = x
  globals_functions : ∀ x, m.globals.contains x = true → m.functions.contains x = false
  globals_builtins : ∀ x, m.globals.contains x = true → m.builtins.contains x = false
  functions_builtins : ∀ x, m.functions.contains x = true → m.builtins.contains x = false

/-- What the names of a machine stand for, they stand for on the other one: the same builtins, the
same functions, and global variables of the same mutability, where constants have the same value. -/
structure Retains (m m' : Machine) : Prop where
  builtins : m'.builtins = m.builtins
  functions : ∀ x f, m.functions.get? x = some f → m'.functions.get? x = some f
  globals : ∀ x b, m.globals.get? x = some b → ∃ c, m'.globals.get? x = some c ∧ b.Becomes c

variable {m m' m'' : Machine}

theorem Retains.refl (m : Machine) : m.Retains m := ⟨rfl, fun _ _ => id, fun _ b h => ⟨b, h, .refl b⟩⟩

theorem Retains.trans (h : m.Retains m') (h' : m'.Retains m'') : m.Retains m'' where
  builtins := h'.builtins.trans h.builtins
  functions x f hf := h'.functions x f (h.functions x f hf)
  globals x b hb := by
    obtain ⟨c, hc, hbc⟩ := h.globals x b hb
    obtain ⟨d, hd, hcd⟩ := h'.globals x c hc
    exact ⟨d, hd, hbc.trans hcd⟩

/-! ## Declarations -/

theorem runOn_declareFunction_free {f : Function} (hfree : m.isTaken f.ident = false) :
    (Eval.update (·.declareFunction f)).runOn m =
      (.ok (), { m with functions := m.functions.insert f.ident f }) := by
  rw [Eval.runOn_update, declareFunction_eq_ok_iff.mpr ⟨hfree, rfl⟩]

theorem runOn_declareGlobal_free {x : String} (hfree : m.isTaken x = false) (v : Value)
    (mutability : Mutability) :
    (Eval.update (·.declareGlobal x v mutability)).runOn m =
      (.ok (), { m with globals := m.globals.insert x ⟨v, mutability⟩ }) := by
  rw [Eval.runOn_update, declareGlobal_eq_ok_iff.mpr ⟨hfree, rfl⟩]

theorem Orderly.declareFunction (hm : m.Orderly) {f : Function} (hfree : m.isTaken f.ident = false) :
    Orderly { m with functions := m.functions.insert f.ident f } := by
  obtain ⟨hglobals, -, hbuiltins⟩ := isTaken_eq_false_iff.mp hfree
  refine ⟨hm.frames, hm.depth, fun x g hg => ?_, fun x hx => ?_, hm.globals_builtins, fun x hx => ?_⟩
  · rw [Table.get?_insert] at hg
    split at hg
    · next h =>
      cases hg
      exact h.symm
    · exact hm.ident x g hg
  · have hne : x ≠ f.ident := by
      rintro rfl
      rw [hglobals] at hx
      cases hx
    simp [Table.contains_insert, hne, hm.globals_functions x hx]
  · rw [Table.contains_insert, Bool.or_eq_true, decide_eq_true_iff] at hx
    obtain rfl | hx := hx
    · exact hbuiltins
    · exact hm.functions_builtins x hx

theorem Orderly.declareGlobal (hm : m.Orderly) {x : String} (hfree : m.isTaken x = false)
    (b : Binding) : Orderly { m with globals := m.globals.insert x b } := by
  obtain ⟨-, hfunctions, hbuiltins⟩ := isTaken_eq_false_iff.mp hfree
  refine ⟨hm.frames, hm.depth, hm.ident, fun y hy => ?_, fun y hy => ?_, hm.functions_builtins⟩
  · rw [Table.contains_insert, Bool.or_eq_true, decide_eq_true_iff] at hy
    obtain rfl | hy := hy
    · exact hfunctions
    · exact hm.globals_functions y hy
  · rw [Table.contains_insert, Bool.or_eq_true, decide_eq_true_iff] at hy
    obtain rfl | hy := hy
    · exact hbuiltins
    · exact hm.globals_builtins y hy

theorem get?_eq_none_of_contains {α : Type} {t : Table α} {x : String} (h : t.contains x = false) :
    t.get? x = none := by
  simpa [Table.contains] using h

theorem retains_declareFunction {f : Function} (hfree : m.isTaken f.ident = false) :
    m.Retains { m with functions := m.functions.insert f.ident f } := by
  refine ⟨rfl, fun x g hg => ?_, (Retains.refl m).globals⟩
  have hne : x ≠ f.ident := by
    rintro rfl
    rw [get?_eq_none_of_contains (isTaken_eq_false_iff.mp hfree).2.1] at hg
    cases hg
  rw [Table.get?_insert, if_neg hne, hg]

theorem retains_declareGlobal {x : String} (hfree : m.isTaken x = false) (b : Binding) :
    m.Retains { m with globals := m.globals.insert x b } := by
  refine ⟨rfl, fun _ _ => id, fun y c hc => ⟨c, ?_, .refl c⟩⟩
  have hne : y ≠ x := by
    rintro rfl
    rw [get?_eq_none_of_contains (isTaken_eq_false_iff.mp hfree).1] at hc
    cases hc
  rw [Table.get?_insert, if_neg hne, hc]

/-! ## Steps of a run -/

/-- An evaluation between declarations. -/
theorem Orderly.withWorld (hm : m.Orderly) {w : World} (hw : m.world.Changes w) :
    (m.withWorld w).Orderly where
  frames := hm.frames
  depth := hm.depth
  ident := hm.ident
  globals_functions x hx := hm.globals_functions x (hw.globals.contains_eq x ▸ hx)
  globals_builtins x hx := hm.globals_builtins x (hw.globals.contains_eq x ▸ hx)
  functions_builtins := hm.functions_builtins

theorem retains_withWorld {w : World} (hw : m.world.Changes w) : m.Retains (m.withWorld w) :=
  ⟨rfl, fun _ _ => id, fun _ _ => hw.globals.exists_get?⟩

/-- From orderly machines the action leads to orderly machines, which retain what names stand for. -/
def Lasting {α : Type} (x : Eval α) : Prop :=
  ∀ m : Machine, m.Orderly → (x.runOn m).2.Orderly ∧ m.Retains (x.runOn m).2

theorem lasting_of_same {α : Type} {x : Eval α} (h : ∀ m, (x.runOn m).2 = m) : Lasting x := by
  intro m hm
  rw [h m]
  exact ⟨hm, .refl m⟩

theorem Lasting.bind {α β : Type} {x : Eval α} {f : α → Eval β} (hx : Lasting x)
    (hf : ∀ a, Lasting (f a)) : Lasting (x >>= f) := by
  intro m hm
  obtain ⟨hm', hretains⟩ := hx m hm
  rw [runOn_bind]
  rcases hrun : x.runOn m with ⟨e | a, m'⟩ <;> rw [hrun] at hm' hretains
  · exact ⟨hm', hretains⟩
  · obtain ⟨hm'', hretains'⟩ := hf a m' hm'
    exact ⟨hm'', hretains.trans hretains'⟩

theorem Lasting.of_changesWorld {α : Type} {x : Eval α} (hx : Eval.ChangesWorld x) : Lasting x := by
  intro m hm
  obtain ⟨w, heq, hw⟩ := hx.exists_eq m
  rw [heq]
  exact ⟨hm.withWorld hw, retains_withWorld hw⟩

theorem lasting_update {step : Machine → Except RuntimeError Machine}
    (h : ∀ m m', Orderly m → step m = .ok m' → m'.Orderly ∧ m.Retains m') :
    Lasting (Eval.update step) := by
  intro m hm
  rw [Eval.runOn_update]
  cases hs : step m with
  | ok m' => exact h m m' hm hs
  | error e => exact ⟨hm, .refl m⟩

theorem programSimulation_lasting : Eval.ProgramSimulation fun _ x _ => Lasting x where
  pure a := lasting_of_same fun _ => rfl
  fail e := lasting_of_same fun _ => rfl
  bind := Lasting.bind
  value e := .of_changesWorld (Eval.changesWorld_value e)
  declareFunction f := lasting_update fun m m' hm h => by
    obtain ⟨hfree, rfl⟩ := declareFunction_eq_ok_iff.mp h
    exact ⟨hm.declareFunction hfree, retains_declareFunction hfree⟩
  declareGlobal x v mutability := lasting_update fun m m' hm h => by
    obtain ⟨hfree, rfl⟩ := declareGlobal_eq_ok_iff.mp h
    exact ⟨hm.declareGlobal hfree _, retains_declareGlobal hfree _⟩

/-! ## Sessions -/

/-- The session goes on from one machine to another one, by any number of runs. -/
inductive Continues (m : Machine) : Machine → Prop
  | refl : Continues m m
  | run {n : Machine} (p : Program) : Continues m n → Continues m (n.run p).2
  | redirect {n : Machine} (sink : Sink) : Continues m n → Continues m { n with sink }

/-- A run ends where its last step left it, with nothing active. -/
theorem Orderly.atRest (hm : m.Orderly) : m.atRest.Orderly :=
  ⟨rfl, rfl, hm.ident, hm.globals_functions, hm.globals_builtins, hm.functions_builtins⟩

theorem Orderly.run (hm : m.Orderly) (p : Program) : (m.run p).2.Orderly ∧ m.Retains (m.run p).2 := by
  obtain ⟨horderly, hretains⟩ := programSimulation_lasting.program p m hm
  rw [run_snd]
  exact ⟨horderly.atRest, hretains.builtins, hretains.functions, hretains.globals⟩

theorem Orderly.continues (hm : m.Orderly) (h : m.Continues m') : m'.Orderly ∧ m.Retains m' := by
  induction h with
  | refl => exact ⟨hm, .refl m⟩
  | run p _ ih =>
    obtain ⟨horderly, hretains⟩ := ih.1.run p
    exact ⟨horderly, ih.2.trans hretains⟩
  | redirect sink _ ih =>
    obtain ⟨horderly, hretains⟩ := ih
    exact ⟨⟨horderly.frames, horderly.depth, horderly.ident, horderly.globals_functions,
      horderly.globals_builtins, horderly.functions_builtins⟩,
      ⟨hretains.builtins, hretains.functions, hretains.globals⟩⟩

theorem Reachable.orderly (hm : m.Reachable) : m.Orderly := by
  induction hm with
  | fresh builtins limits sink => exact ⟨rfl, rfl, nofun, nofun, nofun, nofun⟩
  | run p _ ih => exact (ih.run p).1
  | redirect sink _ ih => exact (ih.continues (.redirect sink .refl)).1

/-! ## Declarations of a run -/

/-- The run of `p` from `m` comes to declare the function `f`, whose name is free. -/
inductive DeclaresFunction (m : Machine) (p : Program) : Function → Prop
  | of_free {fs gs : List Function} {f : Function} {m₁ : Machine} :
      p.functions = fs ++ f :: gs → (Eval.functions fs).runOn m = (.ok (), m₁) →
      m₁.isTaken f.ident = false → DeclaresFunction m p f

/-- The run of `p` from `m` comes to declare a global variable, whose name is free, with what its
initializer has as its value. -/
inductive DeclaresGlobal (m : Machine) (p : Program) : String → Binding → Prop
  | of_free {ds es : List Decl} {d : Decl} {g : Global} {m₁ m₂ : Machine} {v : Value} :
      p.decls = ds ++ d :: es → Semantics.global? d = some g →
      (Eval.functions p.functions >>= fun _ => Eval.globals ds).runOn m = (.ok (), m₁) →
      (initialValue g.initial).runOn m₁ = (.ok v, m₂) → m₂.isTaken g.ident = false →
      DeclaresGlobal m p g.ident ⟨v, g.mutability⟩

theorem functions_append (fs gs : List Function) :
    Eval.functions (fs ++ gs) = (Eval.functions fs >>= fun _ => Eval.functions gs) := by
  induction fs with
  | nil => rfl
  | cons f fs ih => rw [List.cons_append, Eval.functions, Eval.functions, ih, bind_assoc]

theorem globals_append (ds es : List Decl) :
    Eval.globals (ds ++ es) = (Eval.globals ds >>= fun _ => Eval.globals es) := by
  induction ds with
  | nil => rfl
  | cons d ds ih =>
    rw [List.cons_append]
    cases hd : Semantics.global? d with
    | none => rw [globals_cons_func hd, globals_cons_func hd, ih]
    | some g => simp only [globals_cons hd, ih, bind_assoc]

/-- A function that a run declares is there when the run has ended. -/
theorem DeclaresFunction.get? {p : Program} {f : Function} (hm : m.Orderly)
    (h : m.DeclaresFunction p f) : (m.run p).2.functions.get? f.ident = some f := by
  obtain @⟨fs, gs, f, m₁, hp, hrun, hfree⟩ := h
  have hlasting := programSimulation_lasting
  have hm₁ : m₁.Orderly := by
    have horderly := (hlasting.functions fs m hm).1
    rwa [hrun] at horderly
  have hrest : (Eval.program p).runOn m = (Eval.functions gs >>= fun _ => Eval.globals p.decls).runOn
      { m₁ with functions := m₁.functions.insert f.ident f } := by
    rw [Eval.program, hp, functions_append, bind_assoc, runOn_bind_ok hrun, Eval.functions,
      bind_assoc, runOn_bind_ok (runOn_declareFunction_free hfree)]
  have hretains := ((hlasting.functions gs).bind fun _ => hlasting.globals p.decls) _
    (hm₁.declareFunction hfree)
  rw [run_snd, hrest]
  refine hretains.2.functions f.ident f ?_
  rw [Table.get?_insert, if_pos rfl]

theorem changesWorld_initialValue (e? : Option Expr) : Eval.ChangesWorld (initialValue e?) := by
  cases e? with
  | none => exact Eval.changes_of_same fun _ _ => runOn_pure Value.null _
  | some e => exact Eval.changesWorld_value e

/-- A global variable that a run declares is there when the run has ended, as it was declared but
for the value of a mutable one. -/
theorem DeclaresGlobal.exists_get? {p : Program} {x : String} {b : Binding} (hm : m.Orderly)
    (h : m.DeclaresGlobal p x b) :
    ∃ c, (m.run p).2.globals.get? x = some c ∧ b.Becomes c := by
  obtain @⟨ds, es, d, g, m₁, m₂, v, hp, hd, hrun, hvalue, hfree⟩ := h
  have hlasting := programSimulation_lasting
  have hm₁ : m₁.Orderly := by
    have horderly := ((hlasting.functions p.functions).bind fun _ => hlasting.globals ds) m hm
    rw [hrun] at horderly
    exact horderly.1
  have hm₂ : m₂.Orderly := by
    have horderly := Lasting.of_changesWorld (changesWorld_initialValue g.initial) m₁ hm₁
    rw [hvalue] at horderly
    exact horderly.1
  have hrest : (Eval.program p).runOn m = (Eval.globals es).runOn
      { m₂ with globals := m₂.globals.insert g.ident ⟨v, g.mutability⟩ } := by
    rw [Eval.program, hp, globals_append, ← bind_assoc, runOn_bind_ok hrun, globals_cons hd,
      runOn_bind_ok hvalue, runOn_bind_ok (runOn_declareGlobal_free hfree v g.mutability)]
  have hretains := hlasting.globals es _ (hm₂.declareGlobal hfree ⟨v, g.mutability⟩)
  rw [run_snd, hrest]
  refine hretains.2.globals g.ident _ ?_
  rw [Table.get?_insert, if_pos rfl]

/-! ## Origins -/

theorem runOn_functions_globals (fs : List Function) (m : Machine) :
    ((Eval.functions fs).runOn m).2.globals = m.globals := by
  induction fs generalizing m with
  | nil => rfl
  | cons f fs ih =>
    rw [Eval.functions, runOn_bind, Eval.runOn_update]
    cases hdeclare : m.declareFunction f with
    | error e => rfl
    | ok m' =>
      obtain ⟨-, rfl⟩ := declareFunction_eq_ok_iff.mp hdeclare
      exact ih _

/-- A global variable that is there when the declarations `es` are done was there before them, or
one of them is its declaration. -/
theorem exists_declaresGlobal_of_globals {p : Program} {ds es : List Decl} {m₁ : Machine}
    (hp : p.decls = ds ++ es)
    (hrun : (Eval.functions p.functions >>= fun _ => Eval.globals ds).runOn m = (.ok (), m₁))
    {x : String} {c : Binding} (hc : ((Eval.globals es).runOn m₁).2.globals.get? x = some c) :
    (∃ b, m₁.globals.get? x = some b ∧ b.Becomes c) ∨ ∃ b, m.DeclaresGlobal p x b ∧ b.Becomes c := by
  induction es generalizing ds m₁ with
  | nil => exact .inl ⟨c, hc, .refl c⟩
  | cons d es ih =>
    have hp' : p.decls = (ds ++ [d]) ++ es := by rw [hp, List.append_assoc]; rfl
    cases hd : Semantics.global? d with
    | none =>
      rw [globals_cons_func hd] at hc
      refine ih hp' ?_ hc
      rw [globals_append, ← bind_assoc, runOn_bind_ok hrun, globals_cons_func hd]
      rfl
    | some g =>
      rw [globals_cons hd, runOn_bind] at hc
      obtain ⟨w, heq, hw⟩ := (changesWorld_initialValue g.initial).exists_eq m₁
      have hupdates {b : Binding} (hb : w.globals.get? x = some b) (hbc : b.Becomes c) :
          ∃ b, m₁.globals.get? x = some b ∧ b.Becomes c := by
        obtain ⟨a, ha, hab⟩ := hw.globals.exists_get?_of_get? hb
        exact ⟨a, ha, hab.trans hbc⟩
      rcases hvalue : (initialValue g.initial).runOn m₁ with ⟨e | v, m₂⟩ <;> rw [hvalue] at hc heq
      · rw [show m₂ = m₁.withWorld w from heq] at hc
        exact .inl (hupdates hc (.refl c))
      · obtain rfl : m₂ = m₁.withWorld w := heq
        dsimp only at hc
        rw [runOn_bind, Eval.runOn_update] at hc
        cases hdeclare : (m₁.withWorld w).declareGlobal g.ident v g.mutability with
        | error e =>
          rw [hdeclare] at hc
          exact .inl (hupdates hc (.refl c))
        | ok m₃ =>
          rw [hdeclare] at hc
          obtain ⟨hfree, rfl⟩ := declareGlobal_eq_ok_iff.mp hdeclare
          have hrun' : (Eval.functions p.functions >>= fun _ => Eval.globals (ds ++ [d])).runOn m =
              (.ok (), { m₁.withWorld w with
                globals := w.globals.insert g.ident ⟨v, g.mutability⟩ }) := by
            rw [globals_append, ← bind_assoc, runOn_bind_ok hrun, globals_cons hd,
              runOn_bind_ok hvalue, runOn_bind_ok (runOn_declareGlobal_free hfree v g.mutability)]
            rfl
          obtain ⟨b, hb, hbc⟩ | hdeclared := ih hp' hrun' hc
          · rw [Table.get?_insert] at hb
            split at hb
            · next hx =>
              cases hb
              exact .inr ⟨_, hx ▸ .of_free hp hd hrun hvalue hfree, hbc⟩
            · exact .inl (hupdates hb hbc)
          · exact .inr hdeclared

theorem exists_declaresGlobal_of_run {p : Program} {x : String} {c : Binding}
    (hc : (m.run p).2.globals.get? x = some c) :
    (∃ b, m.globals.get? x = some b ∧ b.Becomes c) ∨ ∃ b, m.DeclaresGlobal p x b ∧ b.Becomes c := by
  rw [run_snd] at hc
  change ((Eval.program p).runOn m).2.globals.get? x = some c at hc
  rw [Eval.program, runOn_bind] at hc
  have hglobals := runOn_functions_globals p.functions m
  rcases hfunctions : (Eval.functions p.functions).runOn m with ⟨e | _, m₁⟩ <;>
    rw [hfunctions] at hc hglobals
  · exact .inl ⟨c, hglobals ▸ hc, .refl c⟩
  · have hnone : p.decls = [] ++ p.decls := rfl
    have hstart : (Eval.functions p.functions >>= fun _ => Eval.globals []).runOn m =
        (.ok (), m₁) := runOn_bind_ok hfunctions
    obtain ⟨b, hb, hbc⟩ | hdeclared := exists_declaresGlobal_of_globals hnone hstart hc
    · exact .inl ⟨b, hglobals ▸ hb, hbc⟩
    · exact .inr hdeclared

/-- Every global variable was declared by a run of the session. -/
theorem Reachable.exists_declaresGlobal (hm : m.Reachable) {x : String} {c : Binding}
    (hc : m.globals.get? x = some c) :
    ∃ (n : Machine) (p : Program) (b : Binding), n.Reachable ∧ n.DeclaresGlobal p x b ∧
      (n.run p).2.Continues m ∧ b.Becomes c := by
  induction hm generalizing c with
  | fresh builtins limits sink => cases hc
  | @run m p hm ih =>
    obtain ⟨b, hb, hbc⟩ | ⟨b, hb, hbc⟩ := exists_declaresGlobal_of_run hc
    · obtain ⟨n, q, a, hn, ha, hcontinues, hab⟩ := ih hb
      exact ⟨n, q, a, hn, ha, .run p hcontinues, hab.trans hbc⟩
    · exact ⟨m, p, b, hm, hb, .refl, hbc⟩
  | redirect sink _ ih =>
    obtain ⟨n, q, a, hn, ha, hcontinues, hac⟩ := ih hc
    exact ⟨n, q, a, hn, ha, .redirect sink hcontinues, hac⟩

theorem Reachable.continues (hm : m.Reachable) (h : m.Continues m') : m'.Reachable := by
  induction h with
  | refl => exact hm
  | run p _ ih => exact .run p ih
  | redirect sink _ ih => exact .redirect sink ih

/-- After any runs of a session, however they ended, the machine is orderly. What names stood for
before a run and after it, they still stand for. A function that the run declared is the same one; a
global variable has the mutability it was declared with, and a constant its value too. And there are no
global variables but those that runs declared. -/
theorem bindings_last (hm : m.Reachable) (p : Program) (h : (m.run p).2.Continues m') :
    m'.Orderly ∧ m.Retains m' ∧ (m.run p).2.Retains m' ∧
    (∀ f, m.DeclaresFunction p f → m'.functions.get? f.ident = some f) ∧
    (∀ x b, m.DeclaresGlobal p x b → ∃ c, m'.globals.get? x = some c ∧ b.Becomes c) ∧
    ∀ x c, m'.globals.get? x = some c → ∃ (n : Machine) (q : Program) (b : Binding),
      n.Reachable ∧ n.DeclaresGlobal q x b ∧ (n.run q).2.Continues m' ∧ b.Becomes c := by
  obtain ⟨horderly, hbefore⟩ := hm.orderly.run p
  obtain ⟨horderly', hafter⟩ := horderly.continues h
  have hm' : m'.Reachable := (Reachable.run p hm).continues h
  refine ⟨horderly', hbefore.trans hafter, hafter, fun f hf => ?_, fun x b hb => ?_,
    fun x c hc => hm'.exists_declaresGlobal hc⟩
  · exact hafter.functions f.ident f (hf.get? hm.orderly)
  · obtain ⟨c, hc, hbc⟩ := hb.exists_get? hm.orderly
    obtain ⟨d, hd, hcd⟩ := hafter.globals x c hc
    exact ⟨d, hd, hbc.trans hcd⟩

/-- Declares a constant and a variable. -/
def bookkeeping : Program where
  decls := [.const "rate" (.int 7), .var "total" (some (.int 0))]

/-- Declares a function that assigns to the variable and then fails, since it assigns to the constant
too. -/
def overreach : Program where
  decls := [.func ⟨"raise", [], [], [.assign "total" (.int 9), .assign "rate" (.int 8)]⟩,
    .var "raised" (some (.call (.name "raise") []))]

/-- A session whose second run fails in the middle of an initializer. -/
theorem bindings_last_overreach :
    let m := Machine.standard {} {}
    let m' := ((m.run bookkeeping).2.run overreach).2
    m.Reachable ∧ (m.run bookkeeping).2.Continues m' ∧
      ((m.run bookkeeping).2.run overreach).1 = .error (.constantAssigned "rate") ∧
      m.DeclaresGlobal bookkeeping "rate" ⟨.int 7, .constant⟩ ∧
      m'.Orderly ∧ m'.global? "rate" = some (.int 7) ∧ m'.global? "total" = some (.int 9) := by
  have hm : (Machine.standard {} {}).Reachable := .fresh _ _ _
  have hcontinues : ((Machine.standard {} {}).run bookkeeping).2.Continues
      (((Machine.standard {} {}).run bookkeeping).2.run overreach).2 := .run overreach .refl
  have hrate : (Machine.standard {} {}).DeclaresGlobal bookkeeping "rate" ⟨.int 7, .constant⟩ :=
    have hfirst : bookkeeping.decls = [] ++ .const "rate" (.int 7) :: bookkeeping.decls.tail := rfl
    have hglobal : Semantics.global? (.const "rate" (.int 7)) =
        some ⟨"rate", some (.int 7), .constant⟩ := rfl
    .of_free hfirst hglobal rfl rfl rfl
  obtain ⟨horderly, -, -, -, hdeclared, -⟩ := bindings_last hm bookkeeping hcontinues
  obtain ⟨c, hc, hbc⟩ := hdeclared "rate" _ hrate
  refine ⟨hm, hcontinues, rfl, hrate, horderly, ?_, rfl⟩
  rw [global?, Scope.value?, hc, Option.map_some, hbc.constant rfl]

end Machine

end Scriptlet
