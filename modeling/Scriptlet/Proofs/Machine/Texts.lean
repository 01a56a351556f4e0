-- SUMMARY: Into a sink without a bound, evaluation writes a text, and the sink plays no other part in it.
import Scriptlet.Proofs.Machine.Capacity

/-!
# What is written

A sink that takes any number of bytes never makes an evaluation fail, and nothing reads it. So
what is written does not depend on what was written before, and neither does anything else.
Each write is that of a text, so the bytes that are added are those of a text.
-/
namespace Scriptlet

open Scriptlet.Action

/-! ## Sinks -/

theorem Sink.append_text (s : Sink) (text more : String) :
    (s.append text.toByteArray).append more.toByteArray = s.append (text ++ more).toByteArray := by
  rw [append_append, String.toByteArray_append]

theorem Sink.append_no_text (s : Sink) : s.append "".toByteArray = s := s.append_empty

/-- A sink that holds a whole text shows that text. -/
theorem Sink.text_of_written {s : Sink} {text : String} (h : s.written = text.toByteArray) :
    s.text = text := by
  have hvalid : text.toByteArray.IsValidUTF8 := text.isValidUTF8
  have hall : s.written.extract 0 (s.written.size - 0) = text.toByteArray := by
    rw [Nat.sub_zero, ByteArray.extract_zero_size, h]
  simp only [Sink.text, hall, String.fromUTF8?, dif_pos hvalid]
  rfl

/-- What a routine gives and writes does not depend on what was written before, if there is always room. -/
theorem Routine.exists_runOn_carryOut (r : Routine) (vs : List Value) :
    ∃ result text, ∀ s : Sink, s.capacity = none →
      (r.carryOut vs).runOn s = (result, s.append (String.toByteArray text)) := by
  have hsame {result : Except BuiltinError Value} {x : Action Sink BuiltinError Value}
      (h : ∀ s, x.runOn s = (result, s)) : ∃ result text, ∀ s : Sink, s.capacity = none →
        x.runOn s = (result, s.append (String.toByteArray text)) :=
    ⟨result, "", fun s _ => by rw [h, Sink.append_no_text]⟩
  fun_cases Routine.carryOut r vs with
  | case5 v vs => exact ⟨.ok .null, _, fun s hs => runOn_output_unbounded hs _⟩
  | case6 v vs =>
    refine ⟨.ok .null, v.display ++ "\n", fun s hs => ?_⟩
    rw [runOn_bind_ok (runOn_output_unbounded hs _), ← Sink.append_text]
    exact runOn_output_unbounded (s := s.append v.display.toByteArray) hs "\n"
  | _ => exact hsame fun _ => rfl

namespace Eval

variable {α β : Type} {x : Eval α}

theorem exists_runOn_callBuiltin (b : Builtin) (vs : List Value) :
    ∃ r text, ∀ m : Machine, m.sink.capacity = none →
      (callBuiltin b vs).runOn m = (r, { m with sink := m.sink.append (String.toByteArray text) }) := by
  obtain ⟨result, text, hcarry⟩ := b.routine.exists_runOn_carryOut vs
  by_cases ha : b.least ≤ vs.length ∧ vs.length ≤ b.greatest
  · refine ⟨result.mapError Semantics.haltOf, text, fun m hm => ?_⟩
    have hrun := Semantics.runOn_callBuiltin b vs m m.world
    have hsink : (b.routine.carryOut vs).runOn m.world.sink =
        (result, m.sink.append text.toByteArray) := hcarry m.sink hm
    rw [if_pos ha, Semantics.carryOut_eq, hsink] at hrun
    exact hrun
  · refine ⟨.error (.error (.arity b.ident b.least b.greatest vs.length)), "", fun m _ => ?_⟩
    have hrun := Semantics.runOn_callBuiltin b vs m m.world
    rw [if_neg ha] at hrun
    rw [Sink.append_no_text]
    exact hrun

/-! ## Actions -/

/-- From the machine the action writes the text into any sink without a bound, ends as `r` and leaves
the machine `n`. -/
def Writes (x : Eval α) (m : Machine) (text : String) (r : Except Halt α) (n : Machine) : Prop :=
  ∀ sink : Sink, sink.capacity = none →
    x.runOn (m.into sink) = (r, n.into (sink.append text.toByteArray))

/-- Into whatever sink without a bound, the action writes the same text, and it does the same. -/
def WritesText (x : Eval α) : Prop := ∀ m, ∃ text r n, Writes x m text r n

theorem WritesText.bind {f : α → Eval β} (hx : WritesText x) (hf : ∀ a, WritesText (f a)) :
    WritesText (x >>= f) := by
  intro m
  obtain ⟨text, r, n, hrun⟩ := hx m
  cases r with
  | error k => exact ⟨text, .error k, n, fun sink hsink => runOn_bind_error (hrun sink hsink)⟩
  | ok a =>
    obtain ⟨more, r, n', hrun'⟩ := hf a n
    refine ⟨text ++ more, r, n', fun sink hsink => ?_⟩
    rw [runOn_bind_ok (hrun sink hsink), ← Sink.append_text]
    exact hrun' (sink.append text.toByteArray) hsink

theorem writesText_of_run (r : Machine → Except Halt α) (next : Machine → Machine)
    (hrun : ∀ (m : Machine) sink, x.runOn (m.into sink) = (r m, (next m).into sink)) :
    WritesText x :=
  fun m => ⟨"", r m, next m, fun sink _ => by rw [hrun, Sink.append_no_text]⟩

theorem writesText_of_same {r : Machine → Except Halt α}
    (h : ∀ (m : Machine) sink, x.runOn (m.into sink) = (r m, m.into sink)) : WritesText x :=
  writesText_of_run r id h

theorem sequential_writesText : Sequential fun _ x _ => WritesText x where
  pure a := writesText_of_same fun _ _ => runOn_pure a _
  fail e := writesText_of_same fun _ _ => runOn_fail e _
  bind := WritesText.bind

theorem writesText_update {step : Machine → Except RuntimeError Machine}
    (h : ∀ (m : Machine) sink, step { m with sink } = (step m).map fun m' => { m' with sink }) :
    WritesText (update step) := by
  refine writesText_of_run (fun m => ((step m).map fun _ => ()).mapError .error)
    (fun m => (step m).toOption.getD m) fun m sink => ?_
  rw [runOn_update, Machine.into, h]
  cases step m <;> rfl

theorem writesText_callBuiltin (b : Builtin) (vs : List Value) : WritesText (callBuiltin b vs) := by
  obtain ⟨r, text, hrun⟩ := exists_runOn_callBuiltin b vs
  exact fun m => ⟨text, r, m, fun sink hsink => hrun (m.into sink) hsink⟩

theorem writesText_allowCall (f : Function) (vs : List Value) : WritesText (allowCall f vs) := by
  refine writesText_of_same (r := fun m => ((allowCall f vs).runOn m).1) fun m sink => ?_
  rw [Machine.into, runOn_allowCall, runOn_allowCall]
  split
  · split <;> rfl
  · rfl

theorem WritesText.nested (hx : WritesText x) : WritesText (Eval.nested x) := by
  intro m
  by_cases hfull : m.limits.evaluations ≤ m.depth
  · refine ⟨"", .error (.error (.tooDeep .evaluation m.limits.evaluations)), m, fun sink _ => ?_⟩
    rw [Sink.append_no_text]
    exact runOn_nested_full (m := m.into sink) hfull
  · obtain ⟨text, r, n, hrun⟩ := hx { m with depth := m.depth + 1 }
    exact ⟨text, r, { n with depth := n.depth - 1 }, fun sink hsink =>
      runOn_nested_room (m := m.into sink) hfull (hrun sink hsink)⟩

theorem WritesText.inFrame (hx : WritesText x) : WritesText (Eval.inFrame x) := by
  intro m
  obtain ⟨text, r, n, hrun⟩ := hx { m with frames := {} :: m.frames }
  exact ⟨text, r, { n with frames := n.frames.tail }, fun sink hsink =>
    runOn_inFrame_of (m := m.into sink) (hrun sink hsink)⟩

/-! ## Evaluations -/

theorem simulation_writesText :
    Simulation (fun _ _ x _ => WritesText x) (fun _ _ x _ => WritesText x) where
  expressions _ := sequential_writesText
  statements _ := sequential_writesText
  expression := id
  resolve _ z := writesText_of_same (r := fun m => (m.resolve z).mapError .error)
    fun m sink => runOn_resolve z (m.into sink)
  callee _ z := writesText_of_same (r := fun m => (m.callee z).mapError .error)
    fun m sink => runOn_callee z (m.into sink)
  callBuiltin _ := writesText_callBuiltin
  allowCall _ := writesText_allowCall
  declare _ z v mutability :=
    writesText_update fun m sink => (inert_redirect sink).declare m z v mutability
  assign _ z v := writesText_update fun m sink => (inert_redirect sink).assign m z v
  nested := WritesText.nested
  inFrame := WritesText.inFrame

theorem writesText_value (e : Expr) : WritesText (value e) := by
  have hthrow : WritesText (throw .starved : Eval Value) :=
    writesText_of_same fun _ _ => runOn_throw Halt.starved _
  exact fun m => (simulation_writesText.levels_same hthrow.nested m.levelsLeft).1 e m

theorem programSimulation_writesText : ProgramSimulation fun _ x _ => WritesText x where
  toSequential := sequential_writesText
  value := writesText_value
  declareFunction f := writesText_update fun m sink => (inert_redirect sink).declareFunction m f
  declareGlobal z v mutability :=
    writesText_update fun m sink => (inert_redirect sink).declareGlobal m z v mutability

/-- Into a sink without a bound, a program writes a text, and neither that nor what else it does depends on
what the sink holds. -/
theorem writesText_program (p : Program) : WritesText (program p) :=
  programSimulation_writesText.program p

end Eval

end Scriptlet
