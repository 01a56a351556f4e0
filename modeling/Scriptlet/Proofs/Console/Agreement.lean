-- SUMMARY: What the prompt answers to the lines of a script is what the script writes when it is run as a file.
import Scriptlet.Proofs.Console.Lines
import Scriptlet.Proofs.Machine.Incremental
import Scriptlet.Proofs.Machine.Texts
import Scriptlet.Proofs.Parse.Lines

/-!
# Scripts at the prompt

A script may be run as a file, or its lines may be given to the prompt one by one. If each
line is a program and the functions stand first, both come to the same: a run as a file
declares all functions before anything else, and so does the prompt in that order. What the
prompt writes after each of its prompts is what the run of the file writes in that line.
-/
namespace Scriptlet

open Scriptlet.Action
open Program (join FunctionsFirst)

/-! ## Texts in lines -/

namespace Program

theorem ofText_nil : ofText (String.ofList []) = .ok (join []) := by
  refine ofText_eq_ok.mpr ⟨[Token.atEnd 0], ?_, rfl⟩
  rw [Token.ofText, String.toList_ofList, Token.scan_nil]

theorem ofText_of_charLines {cs : List Char} {ps : List Program}
    (h : (Console.charLines cs).map (fun line => ofText (String.ofList line)) = ps.map .ok) :
    ofText (String.ofList cs) = .ok (join ps) := by
  induction ps generalizing cs with
  | nil =>
    obtain ⟨rfl, -⟩ | ⟨line, rest, -, hlines, -⟩ := Console.charLines_cases cs
    · exact ofText_nil
    · rw [hlines] at h
      cases h
  | cons p ps ih =>
    obtain ⟨-, hnone⟩ | ⟨line, rest, rfl, hlines, hend⟩ := Console.charLines_cases cs
    · rw [hnone] at h
      cases h
    · rw [hlines, List.map_cons, List.map_cons, List.cons.injEq] at h
      obtain ⟨hline, hrest⟩ := h
      rw [join_cons]
      obtain hend | rfl := hend
      · have hfeed : ∀ c ∈ (String.ofList line).toList.getLast?, c = '\n' := by
          rw [String.toList_ofList, hend]
          rintro _ ⟨⟩
          rfl
        rw [String.ofList_append, ofText_append_of_end hline hfeed, ih hrest]
        rfl
      · obtain rfl : ps = [] := by simpa [Console.charLines] using hrest.symm
        rw [List.append_nil, hline]
        exact congrArg (fun ds => Except.ok (Program.mk ds)) (List.append_nil p.decls).symm

/-- A text whose lines are programs is the program of all of them. -/
theorem ofText_of_lines {text : String} {ps : List Program}
    (h : (Console.lines text).map ofText = ps.map .ok) : ofText text = .ok (join ps) := by
  rw [Console.lines, List.map_map] at h
  have hjoin := ofText_of_charLines h
  rwa [String.ofList_toList] at hjoin

end Program

/-! ## Runs in turns -/

/-- How the evaluation of a run ends that does not fail. -/
def Outcome.ended : Outcome → Except Halt Unit
  | .completed => .ok ()
  | .exited status => .error (.exit status)

namespace Eval

theorem exists_runOn_functions (fs : List Function) (m : Machine) :
    ∃ r declared, (functions fs).runOn m =
      ((r : Except RuntimeError Unit).mapError .error, { m with functions := declared }) :=
  ⟨_, _, Semantics.runOn_functions rfl⟩

theorem sink_of_runOn_functions {fs : List Function} {m m' : Machine} {r : Except Halt Unit}
    (h : (functions fs).runOn m = (r, m')) : m'.sink = m.sink := by
  obtain ⟨r', declared, hrun⟩ := exists_runOn_functions fs m
  rw [h] at hrun
  cases hrun
  rfl

/-- What the run of a script has done after the declarations of its first `k` lines, whose programs
are `ps`: it declares the functions of all lines first. -/
def upTo (ps : List Program) (k : Nat) : Eval Unit := do
  functions (join ps).functions
  globals (join (ps.take k)).decls

/-- With the functions first, the run of a script has done after `k` lines what these do one after
another. -/
theorem runOn_upTo {ps : List Program} (horder : FunctionsFirst ps) {m m' : Machine}
    (hfunctions : (functions (join ps).functions).runOn m = (.ok (), m')) (k : Nat) :
    ((upTo ps k).runOn m).1 = ((programs (ps.take k)).runOn m).1 ∧
      ((upTo ps k).runOn m).2.sink = ((programs (ps.take k)).runOn m).2.sink := by
  have hsplit : ps.take k ++ ps.drop k = ps := List.take_append_drop k ps
  have hjoin : (join ps).functions = (join (ps.take k)).functions ++ (join (ps.drop k)).functions := by
    rw [← Program.functions_append, ← Program.join_append, hsplit]
  have hfirst : FunctionsFirst (ps.take k) := horder.sublist (List.take_sublist k ps)
  have hnone : (join (ps.take k)).HasVariables → (join (ps.drop k)).functions = [] :=
    FunctionsFirst.append (hsplit.symm ▸ horder)
  rw [← program_join hfirst]
  by_cases hvariables : (join (ps.take k)).HasVariables
  · rw [upTo, hjoin, hnone hvariables, List.append_nil, program]
    exact ⟨rfl, rfl⟩
  · have hglobals := globals_eq_pure_of_not_hasVariables hvariables
    rw [upTo, program, hglobals, runOn_bind_ok hfunctions]
    have hsink := sink_of_runOn_functions hfunctions
    rw [hjoin, Machine.functions_append] at hfunctions
    obtain ⟨_, m'', hearly, -⟩ := runOn_bind_eq_ok.mp hfunctions
    rw [runOn_bind_ok hearly]
    exact ⟨rfl, hsink.trans (sink_of_runOn_functions hearly).symm⟩

/-- The functions of a run that does not fail can be declared. -/
theorem runOn_functions_of_ended {p : Program} {m n : Machine} {outcome : Outcome}
    (h : (program p).runOn m = (outcome.ended, n)) :
    ∃ m', (functions p.functions).runOn m = (.ok (), m') := by
  obtain ⟨r, declared, hrun⟩ := exists_runOn_functions p.functions m
  cases r with
  | ok _ => exact ⟨_, hrun⟩
  | error e =>
    rw [program, runOn_bind_error hrun] at h
    cases outcome <;> cases h

/-- Carried out one after another from the machine, the programs write the texts, one each, up to the
first that does not return. -/
inductive Turns : Machine → List Program → List String → Except Halt Unit → Prop
  | done (m : Machine) : Turns m [] [] (.ok ())
  | next {m n : Machine} {p : Program} {ps : List Program} {text : String} {outs : List String}
      {r : Except Halt Unit} (hp : Writes (program p) m text (.ok ()) n) (hps : Turns n ps outs r) :
      Turns m (p :: ps) (text :: outs) r
  | halt {m n : Machine} {p : Program} {ps : List Program} {text : String} {k : Halt}
      (hp : Writes (program p) m text (.error k) n) : Turns m (p :: ps) [text] (.error k)

theorem exists_turns (m : Machine) (ps : List Program) : ∃ outs r, Turns m ps outs r := by
  induction ps generalizing m with
  | nil => exact ⟨[], .ok (), .done m⟩
  | cons p ps ih =>
    obtain ⟨text, r, n, hp⟩ := writesText_program p m
    cases r with
    | error k => exact ⟨[text], .error k, .halt hp⟩
    | ok _ =>
      obtain ⟨outs, r, hps⟩ := ih n
      exact ⟨text :: outs, r, .next hp hps⟩

namespace Turns

variable {m : Machine} {ps : List Program} {outs : List String} {r : Except Halt Unit}

theorem length_eq (h : Turns m ps outs (.ok ())) : outs.length = ps.length := by
  generalize hr : Except.ok () = r at h
  induction h with
  | done => rfl
  | next _ _ ih => exact congrArg (· + 1) (ih hr)
  | halt => cases hr

/-- What is written in turns is written by all programs together. -/
theorem writes (h : Turns m ps outs r) : ∃ n, Writes (programs ps) m (String.join outs) r n := by
  induction h with
  | done m =>
    refine ⟨m, fun sink _ => ?_⟩
    rw [String.join_nil, Sink.append_no_text]
    rfl
  | @next m n p ps text outs r hp _ ih =>
    obtain ⟨n', hps⟩ := ih
    refine ⟨n', fun sink hsink => ?_⟩
    rw [programs, runOn_bind_ok (hp sink hsink), String.join_cons, ← Sink.append_text]
    exact hps (sink.append text.toByteArray) hsink
  | @halt m n p ps text k hp =>
    refine ⟨n, fun sink hsink => ?_⟩
    rw [programs, String.join_cons, String.join_nil, String.append_empty]
    exact runOn_bind_error (hp sink hsink)

/-- The first turns. -/
theorem take (h : Turns m ps outs r) {k : Nat} (hk : k ≤ outs.length) :
    Turns m (ps.take k) (outs.take k) (if k < outs.length then .ok () else r) := by
  induction h generalizing k with
  | done m =>
    obtain rfl := Nat.le_zero.mp hk
    exact .done m
  | @next m n p ps text outs r hp _ ih =>
    cases k with
    | zero => exact .done m
    | succ k =>
      have hps := ih (Nat.le_of_succ_le_succ hk)
      simp only [List.length_cons, Nat.add_lt_add_iff_right]
      exact .next hp hps
  | @halt m n p ps text k' hp =>
    cases k with
    | zero => exact .done m
    | succ k =>
      obtain rfl := Nat.le_zero.mp (Nat.le_of_succ_le_succ hk)
      exact .halt hp

end Turns

end Eval

/-! ## The prompt -/

namespace Console

open Eval (Turns)

/-- What the prompt writes last: another prompt where no line is left. -/
def lastPrompt : Outcome → String
  | .completed => promptText
  | .exited _ => ""

/-- The answer to a line that does not fail. -/
theorem reply_of_run (styled : Bool) {m n : Machine} {line : String} {p : Program} {outcome : Outcome}
    (hline : Program.ofText line = .ok p)
    (hrun : (m.into m.sink.emptied).run p = (.ok outcome, n)) :
    reply styled m line.toByteArray =
      { stdout := n.sink.text
        next := match outcome with
          | .completed => .ok n
          | .exited status => .error status } := by
  have htext : (m.into m.sink.emptied).runText line = (.ok outcome, n) := by
    simp only [Machine.runText, hline, hrun]
    rfl
  simp only [reply, decode_toByteArray]
  rw [show ({ m with sink := m.sink.emptied } : Machine) = m.into m.sink.emptied from rfl, htext]
  cases outcome <;> rfl

/-- What is written to an emptied sink is what it holds. -/
theorem text_append_emptied (sink : Sink) (text : String) :
    (sink.emptied.append text.toByteArray).text = text := by
  refine Sink.text_of_written ?_
  rw [Sink.append, Sink.emptied, ByteArray.empty_append]

/-- The prompt answers the lines in turns. -/
theorem prompt_of_turns (styled : Bool) {m : Machine} {ps : List Program} {outs : List String}
    {outcome : Outcome} (h : Turns m ps outs outcome.ended) (hm : m.frames = []) (hdepth : m.depth = 0)
    {texts : List String} (htexts : texts.map Program.ofText = ps.map .ok) {sink : Sink}
    (hsink : sink.capacity = none) (hflush : sink.flush = .ok ()) :
    prompt styled (m.into sink) (texts.map String.toByteArray) =
      { status := outcome.status
        stdout := String.join (outs.map (promptText ++ ·)) ++ lastPrompt outcome } := by
  generalize hr : outcome.ended = r at h
  induction h generalizing texts sink with
  | done m =>
    obtain rfl : texts = [] := by simpa using htexts
    cases outcome with
    | completed => rfl
    | exited status => cases hr
  | @next m n p ps text outs r hp _ ih =>
    obtain ⟨line, texts, rfl, hline, htexts⟩ := List.map_eq_cons_iff.mp htexts
    have hrun := Machine.run_eq_completed (m := m.into sink.emptied) hm hdepth hflush (hp _ hsink)
    have hframes := Machine.run_snd_frames (m.into sink.emptied) p
    have hlevels := Machine.run_snd_depth (m.into sink.emptied) p
    rw [hrun] at hframes hlevels
    have hkept : (sink.emptied.append text.toByteArray).capacity = none := hsink
    have hrest := ih hframes hlevels htexts hkept hflush hr
    have htext : (n.into (sink.emptied.append text.toByteArray)).sink.text = text :=
      text_append_emptied sink text
    rw [List.map_cons, prompt, reply_of_run styled (m := m.into sink) hline hrun]
    simp only [hrest, htext, List.map_cons, String.join_cons, String.append_assoc]
    rfl
  | @halt m n p ps text k hp =>
    obtain ⟨line, texts, rfl, hline, -⟩ := List.map_eq_cons_iff.mp htexts
    cases outcome with
    | completed => cases hr
    | exited status =>
      cases hr
      have hrun := Machine.run_eq_of_flush (hp sink.emptied hsink) hflush
      have htext : (n.into (sink.emptied.append text.toByteArray)).atRest.sink.text = text :=
        text_append_emptied sink text
      rw [List.map_cons, prompt, reply_of_run styled (m := m.into sink) hline hrun]
      simp only [htext, lastPrompt, List.map_cons, List.map_nil, String.join_cons, String.join_nil,
        String.append_empty]
      rfl

/-! ## Files -/

/-- The run of a script from the machine ends as the outcome, and what it writes is cut where its lines
end, whose programs are `ps`. There is a text for each line that is begun. -/
structure CutAtLines (m : Machine) (ps : List Program) (outcome : Outcome) (outs : List String) :
    Prop where
  /-- What is written when the declarations of the first `k` lines are done. -/
  written : ∀ k ≤ outs.length,
    ((Eval.upTo ps k).runOn m).2.sink.written = (String.join (outs.take k)).toByteArray
  /-- Before the last of the texts, no line ends the run. -/
  goesOn : ∀ k < outs.length, ((Eval.upTo ps k).runOn m).1 = .ok ()
  /-- With the last of them, the run ends. -/
  ended : ((Eval.upTo ps outs.length).runOn m).1 = outcome.ended
  completed : outcome = .completed → outs.length = ps.length

theorem cutAtLines_of_turns {limits : Limits} {ps : List Program} (horder : FunctionsFirst ps)
    {outcome : Outcome} {outs : List String}
    (h : Turns (Machine.standard limits {}) ps outs outcome.ended) {m' : Machine}
    (hfunctions : (Eval.functions (join ps).functions).runOn (Machine.standard limits {}) =
      (.ok (), m')) :
    CutAtLines (Machine.standard limits {}) ps outcome outs := by
  have hupTo {k : Nat} (hk : k ≤ outs.length) :
      ((Eval.upTo ps k).runOn (Machine.standard limits {})).1 =
          (if k < outs.length then .ok () else outcome.ended) ∧
        ((Eval.upTo ps k).runOn (Machine.standard limits {})).2.sink.written =
          (String.join (outs.take k)).toByteArray := by
    obtain ⟨n, hwrites⟩ := (h.take hk).writes
    obtain ⟨hend, hsink⟩ := Eval.runOn_upTo horder hfunctions k
    have hrun := hwrites {} rfl
    change (Eval.programs (ps.take k)).runOn (Machine.standard limits {}) = _ at hrun
    rw [hend, hsink, hrun]
    exact ⟨rfl, ByteArray.empty_append⟩
  refine ⟨fun k hk => (hupTo hk).2, fun k hk => ?_, ?_, fun hcompleted => ?_⟩
  · rw [(hupTo hk.le).1, if_pos hk]
  · rw [(hupTo le_rfl).1, if_neg (Nat.lt_irrefl _)]
  · rw [hcompleted] at h
    exact h.length_eq

/-- The evaluation of a run that does not fail. -/
theorem eq_ended_of_resultOf {m : Machine} {r : Except Halt Unit} {outcome : Outcome}
    (h : (m.resultOf r).mapError ScriptError.runtime = .ok outcome) : r = outcome.ended := by
  rcases r with k | _
  · cases k <;> cases mapError_eq_ok.mp h
    rfl
  · cases mapError_eq_ok.mp h
    rfl

/-- A script each of whose lines is a program, and in which the functions stand first, is run as a file
and does not fail. Then its lines, given to the prompt, end with the same status, and nothing is reported
on either side. What the prompt writes is what the run of the file writes, cut where the lines end, with
a prompt before the output of each line that is read, and another one if all lines are read. -/
theorem run_prompt_eq_run_file {env : String → Option String} {directory : Directory} {path : String}
    {content : String} {ps : List Program} {outcome : Outcome}
    (hfile : directory.read path = .ok content.toByteArray)
    (hlines : (lines content).map Program.ofText = ps.map .ok) (horder : FunctionsFirst ps)
    (hrun : ((Machine.standard (limits env) {}).runText content).1 = .ok outcome)
    (stdin : ByteArray) :
    let file := run [path] env directory stdin
    let repl := run [] env directory content.toByteArray
    repl.status = file.status ∧ file.status = outcome.status ∧ file.stderr = "" ∧ repl.stderr = "" ∧
      Program.ofText content = .ok (join ps) ∧
      ∃ outs, CutAtLines (Machine.standard (limits env) {}) ps outcome outs ∧
        file.stdout = String.join outs ∧
        repl.stdout = String.join (outs.map (promptText ++ ·)) ++ lastPrompt outcome := by
  have htext := Program.ofText_of_lines hlines
  obtain ⟨outs, r, hturns⟩ := Eval.exists_turns (Machine.standard (limits env) {}) ps
  obtain ⟨n, hwrites⟩ := hturns.writes
  have hprogram : (Eval.program (join ps)).runOn (Machine.standard (limits env) {}) =
      (r, n.into (Sink.append {} (String.join outs).toByteArray)) := by
    rw [Eval.program_join horder]
    exact hwrites {} rfl
  obtain rfl : r = outcome.ended := by
    simp only [Machine.runText, htext, Machine.run_eq_of_flush hprogram rfl] at hrun
    exact eq_ended_of_resultOf hrun
  have hcompleted : (Machine.standard (limits env) {}).runText content =
      (.ok outcome, (n.into (Sink.append {} (String.join outs).toByteArray)).atRest) := by
    simp only [Machine.runText, htext, Machine.run_eq_of_flush hprogram rfl] at hrun ⊢
    rw [hrun]
  have hwritten : (n.into (Sink.append {} (String.join outs).toByteArray)).atRest.sink.text =
      String.join outs := text_append_emptied {} (String.join outs)
  have hfile : run [path] env directory stdin =
      { status := outcome.status, stdout := String.join outs } := by
    have hdecode : (directory.read path).bind decode = .ok content := by
      rw [hfile]
      exact decode_toByteArray content
    simp only [run, runFile, hdecode, hcompleted, hwritten]
    rfl
  have hrepl : run [] env directory content.toByteArray =
      { status := outcome.status
        stdout := String.join (outs.map (promptText ++ ·)) ++ lastPrompt outcome } := by
    rw [run, byteLines_toByteArray]
    exact prompt_of_turns (styled env) hturns rfl rfl hlines rfl rfl
  obtain ⟨m', hfunctions⟩ := Eval.runOn_functions_of_ended hprogram
  have hcut := cutAtLines_of_turns horder hturns hfunctions
  simp only [hfile, hrepl]
  exact ⟨trivial, trivial, trivial, trivial, htext, outs, hcut, rfl, rfl⟩

/-- A script that writes something and exits before its last line, which has no end. -/
def leaving : String :=
  "func f() \x7b\x7d\nvar a = print(1);\nvar b = exit(3);\nvar c;"

/-- The programs in its lines. -/
def leavingLines : List Program :=
  [⟨[.func ⟨"f", [], [], []⟩]⟩, ⟨[.var "a" (some (.call (.name "print") [.int 1]))]⟩,
    ⟨[.var "b" (some (.call (.name "exit") [.int 3]))]⟩, ⟨[.var "c" none]⟩]

set_option maxRecDepth 8000 in
/-- The script that leaves ends with the same status at the prompt, whose last line is not reached. -/
theorem run_prompt_eq_run_file_leaving :
    let directory : Directory := ⟨({} : Table ByteArray).insert "f" leaving.toByteArray⟩
    directory.read "f" = .ok leaving.toByteArray ∧
      (lines leaving).map Program.ofText = leavingLines.map .ok ∧ FunctionsFirst leavingLines ∧
      ((Machine.standard (limits fun _ => none) {}).runText leaving).1 = .ok (.exited 3) ∧
      (run [] (fun _ => none) directory leaving.toByteArray).status = 3 := by
  intro directory
  have hread (bytes : ByteArray) :
      Directory.read ⟨({} : Table ByteArray).insert "f" bytes⟩ "f" = .ok bytes := by cbv
  have hfile : directory.read "f" = .ok leaving.toByteArray := hread _
  have hlines : lines leaving =
      ["func f() \x7b\x7d\n", "var a = print(1);\n", "var b = exit(3);\n", "var c;"] := by decide
  have hf : Program.ofText "func f() \x7b\x7d\n" = .ok ⟨[.func ⟨"f", [], [], []⟩]⟩ := by cbv
  have ha : Program.ofText "var a = print(1);\n" =
      .ok ⟨[.var "a" (some (.call (.name "print") [.int 1]))]⟩ := by cbv
  have hb : Program.ofText "var b = exit(3);\n" =
      .ok ⟨[.var "b" (some (.call (.name "exit") [.int 3]))]⟩ := by cbv
  have hc : Program.ofText "var c;" = .ok ⟨[.var "c" none]⟩ := by cbv
  have hprograms : (lines leaving).map Program.ofText = leavingLines.map .ok := by
    simp only [hlines, List.map_cons, List.map_nil, hf, ha, hb, hc, leavingLines]
  have horder : FunctionsFirst leavingLines := by
    simp [FunctionsFirst, leavingLines, Program.functions]
  have hrun : ((Machine.standard (limits fun _ => none) {}).runText leaving).1 = .ok (.exited 3) := by
    have hresult : ((Machine.standard (limits fun _ => none) {}).run (join leavingLines)).1 =
      .ok (.exited 3) := by cbv
    simp only [Machine.runText, Program.ofText_of_lines hprograms, hresult]
    rfl
  obtain ⟨hsame, hstatus, -⟩ := run_prompt_eq_run_file hfile hprograms horder hrun .empty
  exact ⟨hfile, hprograms, horder, hrun, hsame.trans hstatus⟩

end Console

end Scriptlet
