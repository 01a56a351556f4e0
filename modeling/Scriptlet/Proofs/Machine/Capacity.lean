-- SUMMARY: A sink that takes no more bytes ends a run with a fault, and holds the first bytes of the output.
import Scriptlet.Proofs.Machine.Effects

/-!
# Sinks of limited capacity

A program is run twice, with a sink that takes any number of bytes and with one that
takes only so many. The second sink always holds the first bytes of what the first one
holds: a write that does not fit is cut. So the two runs go together as long as all
output fits, and the write that does not ends the second run.
-/
namespace Scriptlet

open Scriptlet.Action

/-! ## Cut sinks -/

namespace Sink

/-- The sink, if it had taken no more than `n` bytes. -/
def cut (n : Nat) (s : Sink) : Sink :=
  { s with written := s.written.extract 0 n, capacity := some n }

/-- All that was written is within the first `n` bytes. -/
def Fits (n : Nat) (s : Sink) : Prop := s.written.size ≤ n

variable {n : Nat} {s t : Sink}

instance : Decidable (s.Fits n) := inferInstanceAs (Decidable (_ ≤ _))

theorem fits_append_iff (s : Sink) (bytes : ByteArray) :
    (s.append bytes).Fits n ↔ s.written.size + bytes.size ≤ n := by
  rw [Fits, append, ByteArray.size_append]

theorem Fits.of_extends (h : s.Extends t) (ht : t.Fits n) : s.Fits n := by
  obtain ⟨bytes, rfl⟩ := h
  rw [fits_append_iff] at ht
  exact Nat.le_of_add_right_le ht

/-- What is written when the first `n` bytes are full is lost. -/
theorem cut_eq_of_extends (h : s.Extends t) (hs : ¬ s.Fits n) : t.cut n = s.cut n := by
  obtain ⟨bytes, rfl⟩ := h
  have hfull : n - s.written.size = 0 := Nat.sub_eq_zero_of_le (Nat.le_of_not_le hs)
  simp only [cut, append, ByteArray.extract_append, hfull, Nat.zero_sub,
    ByteArray.extract_same, ByteArray.append_empty]

theorem extends_capacity (h : s.Extends t) : t.capacity = s.capacity := by
  obtain ⟨bytes, rfl⟩ := h
  rfl

theorem runOn_write (text : String) (s : Sink) :
    (write text).runOn s =
      (if s.room text.toByteArray < text.toByteArray.size then .error .sinkFull else .ok (),
        s.append (text.toByteArray.extract 0 (s.room text.toByteArray))) := by
  rw [write, runOn_bind_ok (runOn_get s), runOn_bind_ok (runOn_set s _)]
  split <;> rfl

theorem runOn_write_unbounded (hs : s.capacity = none) (text : String) :
    (write text).runOn s = (.ok (), s.append text.toByteArray) := by
  have hroom : s.room text.toByteArray = text.toByteArray.size := by rw [room, hs]
  rw [runOn_write, hroom, if_neg (Nat.lt_irrefl _), ByteArray.extract_zero_size]

theorem extract_min_size (bytes : ByteArray) (k : Nat) :
    bytes.extract 0 (min bytes.size k) = bytes.extract 0 k := by
  have h := ByteArray.extract_extract (a := bytes) (i := 0) (j := bytes.size) (k := 0) (l := k)
  rw [ByteArray.extract_zero_size, Nat.zero_add, Nat.zero_add, Nat.min_comm] at h
  exact h.symm

theorem extract_append_size_add (bytes more : ByteArray) (k : Nat) :
    (bytes ++ more).extract 0 (bytes.size + k) = bytes ++ more.extract 0 k := by
  rw [ByteArray.extract_append, Nat.zero_sub, Nat.add_sub_cancel_left, ← extract_min_size bytes,
    Nat.min_eq_left (Nat.le_add_right _ _), ByteArray.extract_zero_size]

theorem cut_of_fits (hs : s.Fits n) : s.cut n = { s with capacity := some n } := by
  have hwritten : s.written.extract 0 n = s.written := by
    rw [← extract_min_size, Nat.min_eq_left hs, ByteArray.extract_zero_size]
  rw [cut, hwritten]

/-- A cut sink takes of a text what the sink takes of it within the first `n` bytes. -/
theorem runOn_write_cut (hs : s.Fits n) (text : String) :
    (write text).runOn (s.cut n) =
      (if (s.append text.toByteArray).Fits n then .ok () else .error .sinkFull,
        (s.append text.toByteArray).cut n) := by
  generalize hbytes : text.toByteArray = bytes
  have hsize : (s.written.extract 0 n).size = s.written.size := by
    rw [ByteArray.size_extract, Nat.min_eq_right hs, Nat.sub_zero]
  have hroom : (s.cut n).room bytes = min bytes.size (n - s.written.size) := by
    rw [room, cut, hsize]
  rw [runOn_write, hbytes, hroom, extract_min_size]
  refine Prod.ext ?_ ?_
  · have hiff : min bytes.size (n - s.written.size) < bytes.size ↔ ¬ (s.append bytes).Fits n := by
      rw [fits_append_iff]
      have hs : s.written.size ≤ n := hs
      omega
    by_cases hfits : (s.append bytes).Fits n
    · simp only [if_pos hfits, if_neg fun h => hiff.mp h hfits]
    · simp only [if_neg hfits, if_pos (hiff.mpr hfits)]
  · simp only [cut, append, ByteArray.extract_append, Nat.zero_sub]

end Sink

/-! ## Builtins -/

namespace Routine

variable {n : Nat} {s : Sink}

theorem runOn_output (text : String) (s : Sink) :
    (output text).runOn s =
      (((Sink.write text).runOn s).1.map (fun _ => Value.null) |>.mapError .output,
        ((Sink.write text).runOn s).2) := by
  have hrun : runOn (ExceptT.adapt BuiltinError.output (Sink.write text)) s =
      (((Sink.write text).runOn s).1.mapError BuiltinError.output,
        ((Sink.write text).runOn s).2) := rfl
  rw [output, runOn_bind, hrun]
  rcases (Sink.write text).runOn s with ⟨e | a, t⟩ <;> rfl

theorem runOn_output_unbounded (hs : s.capacity = none) (text : String) :
    (output text).runOn s = (.ok .null, s.append text.toByteArray) := by
  rw [runOn_output, Sink.runOn_write_unbounded hs]
  rfl

theorem runOn_output_cut (hs : s.Fits n) (text : String) :
    (output text).runOn (s.cut n) =
      (if (s.append text.toByteArray).Fits n then .ok .null else .error (.output .sinkFull),
        (s.append text.toByteArray).cut n) := by
  rw [runOn_output, Sink.runOn_write_cut hs]
  split <;> rfl

/-- On a cut sink, a routine does what it does on the whole one, or fails because something does not
fit. -/
theorem runOn_carryOut_cut (hcapacity : s.capacity = none) (hs : s.Fits n) (r : Routine)
    (vs : List Value) :
    (r.carryOut vs).runOn (s.cut n) =
      (if ((r.carryOut vs).runOn s).2.Fits n then ((r.carryOut vs).runOn s).1
        else .error (.output .sinkFull), ((r.carryOut vs).runOn s).2.cut n) := by
  fun_cases Routine.carryOut r vs with
  | case5 v vs =>
    rw [runOn_output_cut hs, runOn_output_unbounded hcapacity]
  | case6 v vs =>
    -- The line feed is a write of its own, which may not fit although the value does.
    rw [runOn_bind_ok (runOn_output_unbounded hcapacity _), runOn_bind, runOn_output_cut hs]
    have hcapacity' : (s.append v.display.toByteArray).capacity = none := hcapacity
    rw [runOn_output_unbounded hcapacity']
    by_cases hfits : (s.append v.display.toByteArray).Fits n
    · rw [if_pos hfits]
      exact runOn_output_cut hfits "\n"
    · have hextends : (s.append v.display.toByteArray).Extends
          ((s.append v.display.toByteArray).append "\n".toByteArray) := ⟨_, rfl⟩
      rw [if_neg hfits, if_neg fun h => hfits (h.of_extends hextends),
        Sink.cut_eq_of_extends hextends hfits]
  | _ => exact Prod.ext (if_pos hs).symm rfl

end Routine

/-! ## Actions -/

/-- The machine, if its sink had taken no more than `n` bytes. -/
def Machine.cut (n : Nat) (m : Machine) : Machine := { m with sink := m.sink.cut n }

namespace Eval

variable {α β : Type} {n : Nat} {x : Eval α}

/-- What an action does on a machine, and what it does on that machine with its sink cut: the same if
all output fits, and else it fails when the sink is full. -/
structure UpTo (n : Nat) (full cut : Except Halt α × Machine) : Prop where
  same : full.2.sink.Fits n → cut = (full.1, full.2.cut n)
  ended : ¬ full.2.sink.Fits n →
    cut.1 = .error (.error (.output .sinkFull)) ∧ cut.2.sink = full.2.sink.cut n

/-- The action goes on with a cut sink until that is full. -/
structure StopsFull (n : Nat) (x : Eval α) : Prop where
  grows : Grows x
  upTo (m : Machine) : m.sink.capacity = none → m.sink.Fits n →
    UpTo n (x.runOn m) (x.runOn (m.cut n))

theorem StopsFull.bind {f : α → Eval β} (hx : StopsFull n x) (hf : ∀ a, StopsFull n (f a)) :
    StopsFull n (x >>= f) := by
  refine ⟨hx.grows.bind fun a => (hf a).grows, fun m hcapacity hfits => ?_⟩
  obtain ⟨hsame, hended⟩ := hx.upTo m hcapacity hfits
  have hgrows := hx.grows m
  rcases hrun : x.runOn m with ⟨h | a, m'⟩ <;> rw [hrun] at hsame hended hgrows
  · rw [runOn_bind_error hrun]
    refine ⟨fun hfits' => runOn_bind_error (hsame hfits'), fun hfull => ?_⟩
    obtain ⟨hhalt, hsink⟩ := hended hfull
    rw [runOn_bind_error (Prod.ext hhalt rfl)]
    exact ⟨rfl, hsink⟩
  · rw [runOn_bind_ok hrun]
    by_cases hfits' : m'.sink.Fits n
    · rw [runOn_bind_ok (hsame hfits')]
      exact (hf a).upTo m' ((Sink.extends_capacity hgrows).trans hcapacity) hfits'
    · obtain ⟨hhalt, hsink⟩ := hended hfits'
      have hmore := (hf a).grows m'
      rw [runOn_bind_error (Prod.ext hhalt rfl)]
      refine ⟨fun h => absurd (h.of_extends hmore) hfits', fun _ => ⟨rfl, ?_⟩⟩
      exact hsink.trans (Sink.cut_eq_of_extends hmore hfits').symm

/-! ## Steps -/

/-- An action that the sink does not matter to, and that leaves it alone. -/
theorem stopsFull_of_run (r : Machine → Except Halt α) (next : Machine → Machine)
    (hrun : ∀ (m : Machine) sink, x.runOn { m with sink } = (r m, { next m with sink })) :
    StopsFull n x := by
  have hm (m : Machine) : x.runOn m = (r m, { next m with sink := m.sink }) := hrun m m.sink
  refine ⟨fun m => ?_, fun m _ hfits => ?_⟩
  · rw [hm]
    exact .refl _
  · rw [hm]
    exact ⟨fun _ => hrun m _, fun hfull => absurd hfits hfull⟩

theorem stopsFull_of_same {r : Machine → Except Halt α}
    (h : ∀ (m : Machine) sink, x.runOn { m with sink } = (r m, { m with sink })) :
    StopsFull n x :=
  stopsFull_of_run r id h

theorem sequential_stopsFull (n : Nat) : Sequential fun _ x _ => StopsFull n x where
  pure a := stopsFull_of_same fun _ _ => runOn_pure a _
  fail e := stopsFull_of_same fun _ _ => runOn_fail e _
  bind := StopsFull.bind

theorem inert_redirect (sink : Sink) : Machine.Inert fun m => { m with sink } :=
  ⟨⟨fun _ => rfl, fun _ => rfl, fun _ _ => rfl, fun _ _ => rfl⟩, fun _ => rfl, fun _ => rfl,
    fun _ _ => rfl⟩

theorem stopsFull_update {step : Machine → Except RuntimeError Machine}
    (h : ∀ (m : Machine) sink, step { m with sink } = (step m).map fun m' => { m' with sink }) :
    StopsFull n (update step) := by
  refine stopsFull_of_run (fun m => ((step m).map fun _ => ()).mapError .error)
    (fun m => (step m).toOption.getD m) fun m sink => ?_
  rw [runOn_update, h]
  cases step m <;> rfl

theorem stopsFull_allowCall (f : Function) (vs : List Value) : StopsFull n (allowCall f vs) := by
  refine stopsFull_of_same (r := fun m => ((allowCall f vs).runOn m).1) fun m sink => ?_
  rw [runOn_allowCall, runOn_allowCall]
  split
  · split <;> rfl
  · rfl

theorem stopsFull_callBuiltin (b : Builtin) (vs : List Value) :
    StopsFull n (callBuiltin b vs) := by
  refine ⟨(changesWorld_callBuiltin b vs).extends, fun m hcapacity hfits => ?_⟩
  have hfull := Semantics.runOn_callBuiltin b vs m m.world
  have hcut := Semantics.runOn_callBuiltin b vs m (m.cut n).world
  change (callBuiltin b vs).runOn m = _ at hfull
  change (callBuiltin b vs).runOn (m.cut n) = _ at hcut
  rw [hfull, hcut]
  split
  · have hroutine := Routine.runOn_carryOut_cut hcapacity hfits b.routine vs
    rw [Semantics.carryOut_eq, Semantics.carryOut_eq]
    change UpTo n _ (((b.routine.carryOut vs).runOn (m.sink.cut n)).1.mapError Semantics.haltOf,
      m.withWorld ⟨m.globals, ((b.routine.carryOut vs).runOn (m.sink.cut n)).2⟩)
    refine ⟨fun (hfits' : Sink.Fits n ((b.routine.carryOut vs).runOn m.sink).2) => ?_,
      fun (hfull' : ¬ Sink.Fits n ((b.routine.carryOut vs).runOn m.sink).2) => ?_⟩
    · rw [hroutine, if_pos hfits']
      rfl
    · rw [hroutine, if_neg hfull']
      exact ⟨rfl, rfl⟩
  · exact ⟨fun _ => rfl, fun hfull' => absurd hfits hfull'⟩

/-- What is done to the machine afterwards, if the sink does not matter to it. -/
theorem UpTo.andThen {full cut : Except Halt α × Machine} (h : UpTo n full cut)
    (next : Machine → Machine) (hcut : ∀ m, next (m.cut n) = (next m).cut n)
    (hsink : ∀ m, (next m).sink = m.sink) :
    UpTo n (full.1, next full.2) (cut.1, next cut.2) := by
  refine ⟨fun hfits => ?_, fun hfull => ?_⟩
  · rw [hsink] at hfits
    rw [h.same hfits, hcut]
  · rw [hsink] at hfull ⊢
    rw [hsink]
    exact h.ended hfull

theorem StopsFull.nested (hx : StopsFull n x) : StopsFull n (Eval.nested x) := by
  refine ⟨hx.grows.nested, fun m hcapacity hfits => ?_⟩
  rw [runOn_nested, runOn_nested]
  change UpTo n _ (if m.limits.evaluations ≤ m.depth then _ else _)
  split
  · exact ⟨fun _ => rfl, fun hfull => absurd hfits hfull⟩
  · exact (hx.upTo { m with depth := m.depth + 1 } hcapacity hfits).andThen
      (fun m => { m with depth := m.depth - 1 }) (fun _ => rfl) fun _ => rfl

theorem StopsFull.inFrame (hx : StopsFull n x) : StopsFull n (Eval.inFrame x) := by
  refine ⟨fun m => hx.grows { m with frames := {} :: m.frames }, fun m hcapacity hfits => ?_⟩
  rw [runOn_inFrame, runOn_inFrame]
  exact (hx.upTo { m with frames := {} :: m.frames } hcapacity hfits).andThen
    (fun m => { m with frames := m.frames.tail }) (fun _ => rfl) fun _ => rfl

/-! ## Evaluations -/

theorem simulation_stopsFull (n : Nat) :
    Simulation (fun _ _ x _ => StopsFull n x) (fun _ _ x _ => StopsFull n x) where
  expressions _ := sequential_stopsFull n
  statements _ := sequential_stopsFull n
  expression := id
  resolve _ z := stopsFull_of_same (r := fun m => (m.resolve z).mapError .error)
    fun m sink => runOn_resolve z { m with sink }
  callee _ z := stopsFull_of_same (r := fun m => (m.callee z).mapError .error)
    fun m sink => runOn_callee z { m with sink }
  callBuiltin _ := stopsFull_callBuiltin
  allowCall _ := stopsFull_allowCall
  declare _ z v mutability :=
    stopsFull_update fun m sink => (inert_redirect sink).declare m z v mutability
  assign _ z v := stopsFull_update fun m sink => (inert_redirect sink).assign m z v
  nested := StopsFull.nested
  inFrame := StopsFull.inFrame

theorem stopsFull_value (e : Expr) : StopsFull n (value e) := by
  have hthrow : StopsFull n (throw .starved : Eval Value) :=
    stopsFull_of_same fun _ _ => runOn_throw Halt.starved _
  have hexpr (fuel : Nat) : StopsFull n (expr fuel e) :=
    ((simulation_stopsFull n).levels_same hthrow.nested fuel).1 e
  exact ⟨fun m => (hexpr m.levelsLeft).grows m, fun m => (hexpr m.levelsLeft).upTo m⟩

theorem programSimulation_stopsFull (n : Nat) :
    ProgramSimulation fun _ x _ => StopsFull n x where
  toSequential := sequential_stopsFull n
  value := stopsFull_value
  declareFunction f := stopsFull_update fun m sink => (inert_redirect sink).declareFunction m f
  declareGlobal z v mutability :=
    stopsFull_update fun m sink => (inert_redirect sink).declareGlobal m z v mutability

end Eval

/-! ## Runs -/

namespace Machine

/-- The machine with another sink. -/
def into (m : Machine) (sink : Sink) : Machine := { m with sink }

theorem cut_into (m : Machine) {sink : Sink} {n : Nat} (hsink : sink.Fits n) :
    (m.into sink).cut n = m.into { sink with capacity := some n } :=
  congrArg m.into (Sink.cut_of_fits hsink)

/-- A run on a sink that flushes without an error. -/
theorem run_eq_of_flush {p : Program} {m m' : Machine} {ended : Except Halt Unit}
    (hrun : (Eval.program p).runOn m = (ended, m')) (hflush : m'.sink.flush = .ok ()) :
    m.run p = (m'.resultOf ended, m'.atRest) := by
  have hatRest : m'.atRest.sink.flush = .ok () := hflush
  simp only [run, hrun, hatRest]
  rfl

/-- A run whose sink has room for so many bytes more, and the same run with a sink that takes any
number: the same if the output fits, and else the sink takes what fits of the output and the run
fails. -/
theorem run_bounded (m : Machine) (p : Program) (held : ByteArray) (room : Nat) :
    let unbounded (written : ByteArray) : Sink := { written }
    let bounded (written : ByteArray) : Sink :=
      { written, capacity := some (held.size + room) }
    let full := (m.into (unbounded held)).run p
    ∃ out : ByteArray, full.2.sink = unbounded (held ++ out) ∧
      (out.size ≤ room →
        (m.into (bounded held)).run p = (full.1, full.2.into (bounded (held ++ out)))) ∧
      (room < out.size →
        ((m.into (bounded held)).run p).1 = .error (.output .sinkFull) ∧
        ((m.into (bounded held)).run p).2.sink = bounded (held ++ out.extract 0 room)) := by
  intro unbounded bounded full
  have hheld : (unbounded held).Fits (held.size + room) := Nat.le_add_right _ _
  obtain ⟨out, hout⟩ := Eval.grows_program p (m.into (unbounded held))
  obtain ⟨hsame, hended⟩ := ((Eval.programSimulation_stopsFull (held.size + room)).program p).upTo
    (m.into (unbounded held)) rfl hheld
  rcases hrun : (Eval.program p).runOn (m.into (unbounded held)) with ⟨ended, m'⟩
  rw [hrun] at hout hsame hended
  replace hout : m'.sink = (unbounded held).append out := hout
  rw [cut_into m hheld, hout] at hsame hended
  have hfull : full = (m'.resultOf ended, m'.atRest) :=
    run_eq_of_flush hrun (congrArg Sink.flush hout)
  rw [hfull]
  refine ⟨out, hout, fun hroom => ?_, fun hroom => ?_⟩
  · have hfits : ((unbounded held).append out).Fits (held.size + room) :=
      (Sink.fits_append_iff _ _).mpr (Nat.add_le_add_left hroom _)
    have hcut : m'.sink.cut (held.size + room) = bounded (held ++ out) := by
      rw [hout]
      exact Sink.cut_of_fits hfits
    rw [run_eq_of_flush (hsame hfits) (congrArg Sink.flush hcut)]
    exact Prod.ext rfl (congrArg m'.atRest.into hcut)
  · have hfull : ¬ ((unbounded held).append out).Fits (held.size + room) := fun hfits =>
      Nat.not_le_of_lt hroom (Nat.le_of_add_le_add_left ((Sink.fits_append_iff _ _).mp hfits))
    obtain ⟨hhalt, hsink⟩ := hended hfull
    rw [run_eq_of_flush (Prod.ext hhalt rfl) (congrArg Sink.flush hsink)]
    refine ⟨rfl, hsink.trans ?_⟩
    exact congrArg bounded (Sink.extract_append_size_add held out room)

end Machine

end Scriptlet
