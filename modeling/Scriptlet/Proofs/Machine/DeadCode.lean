-- SUMMARY: Statements behind a return can be left out of all functions, whatever is run.
import Scriptlet.Proofs.Machine.FunctionTables
import Scriptlet.Proofs.Machine.Session

/-!
# Dead code

A body is carried out up to its first `return`, so a function does the same without the
statements behind it. A session may therefore go on with trimmed programs and trimmed
functions: a machine never tells the difference, however its functions call each other.
-/
namespace Scriptlet

open Scriptlet.Action Semantics

/-! ## Trimmed programs -/

/-- The statements up to the first `return`, which is kept. -/
def Stmt.upToReturn : List Stmt → List Stmt
  | [] => []
  | .ret e :: _ => [.ret e]
  | s :: ss => s :: upToReturn ss

/-- The function without the statements behind the first `return`. -/
def Function.trim (f : Function) : Function := { f with body := Stmt.upToReturn f.body }

def Decl.trim : Decl → Decl
  | .func f => .func f.trim
  | d => d

/-- The program with all its functions trimmed. -/
def Program.trim (p : Program) : Program := ⟨p.decls.map Decl.trim⟩

theorem Program.functions_trim (p : Program) : p.trim.functions = p.functions.map Function.trim := by
  rw [functions, trim, functions, List.filterMap_map, List.map_filterMap]
  congr 1
  funext d
  cases d <;> rfl

/-! ## Trimmed tables -/

namespace Table

variable {α β : Type}

/-- The table with every entry changed by the function. -/
def map (g : α → β) (t : Table α) : Table β := ⟨t.entries.map fun (name, a) => (name, g a)⟩

theorem get?_map (g : α → β) (t : Table α) (name : String) :
    (t.map g).get? name = (t.get? name).map g := by
  obtain ⟨es⟩ := t
  simp only [get?, map]
  induction es with
  | nil => rfl
  | cons e es ih =>
    rw [List.map_cons, List.lookup_cons, List.lookup_cons, ih]
    split <;> rfl

theorem contains_map (g : α → β) (t : Table α) (name : String) :
    (t.map g).contains name = t.contains name := by
  rw [contains, contains, get?_map, Option.isSome_map]

theorem map_insert (g : α → β) (t : Table α) (name : String) (a : α) :
    (t.insert name a).map g = (t.map g).insert name (g a) := by
  obtain ⟨es⟩ := t
  simp only [map, insert, mk.injEq]
  induction es with
  | nil => rfl
  | cons e es ih =>
    obtain ⟨other, b⟩ := e
    simp only [insertInto, List.map_cons]
    split
    · rfl
    · rw [List.map_cons, ih]

end Table

/-- The machine with all its functions trimmed. -/
def Machine.trim (m : Machine) : Machine := m.withFunctions (m.functions.map Function.trim)

namespace Eval

/-! ## Trimmed functions -/

theorem body_upToReturn (eval : Expr → Eval Value) (ss : List Stmt) :
    body eval (Stmt.upToReturn ss) = body eval ss := by
  induction ss with
  | nil => rfl
  | cons s ss ih =>
    have hrest : carryOn eval (Stmt.upToReturn ss) = carryOn eval ss := by
      funext returned
      cases returned with
      | some v => rfl
      | none => exact ih
    cases s with
    | ret e =>
      -- With a value there is nothing left to be done, whatever stands behind.
      have hreturned (ss : List Stmt) (v : Value) :
          (settle (.ret e) v >>= carryOn eval ss) = pure v := rfl
      simp only [Stmt.upToReturn, body_cons, hreturned]
    | const | var | assign | expr =>
      rw [Stmt.upToReturn, body_cons, body_cons, hrest]
      nofun

theorem enter_trim (eval : Expr → Eval Value) (f : Function) (vs : List Value) :
    enter eval f.trim vs = enter eval f vs := by
  simp only [enter, Function.trim, body_upToReturn]

/-- A function does the same when it is trimmed. -/
theorem interchangeable_trim (f : Function) : Interchangeable f f.trim := by
  intro fuel
  funext vs
  cases fuel with
  | zero => rfl
  | succ fuel =>
    simp only [call, enter_trim]
    rfl

theorem globals_trim (ds : List Decl) : globals (ds.map Decl.trim) = globals ds := by
  induction ds with
  | nil => rfl
  | cons d ds ih => cases d <;> simp only [List.map_cons, Decl.trim, globals, ih]

end Eval

theorem Table.interchangeable_trim (t : Table Function) :
    t.Interchangeable (t.map Function.trim) := by
  intro x
  rw [get?_map]
  cases t.get? x with
  | none => exact .none
  | some f => exact .some (Eval.interchangeable_trim f)

/-! ## Runs -/

/-- Trimmed functions are declared where the functions are, and refused for the same reason. -/
theorem Semantics.hoist_trim (builtins : Builtins) (globals : Scope) (fs : List Function)
    (t : Table Function) :
    hoist builtins globals (fs.map Function.trim) (t.map Function.trim) =
      ((hoist builtins globals fs t).1, (hoist builtins globals fs t).2.map Function.trim) := by
  induction fs generalizing t with
  | nil => rfl
  | cons f fs ih =>
    have htaken : taken ⟨builtins, t.map Function.trim⟩ globals f.ident =
        taken ⟨builtins, t⟩ globals f.ident := by
      simp only [taken, Callables.contains, Table.contains_map]
    have hident : f.trim.ident = f.ident := rfl
    rw [List.map_cons, hoist, hoist, hident, htaken, ← Table.map_insert, ih]
    split <;> rfl

namespace Machine

theorem run_trim (m : Machine) (p : Program) :
    m.trim.run p.trim = ((m.run p).1, (m.run p).2.trim) := by
  rcases hp : hoist m.builtins m.globals p.functions m.functions with ⟨r, t⟩
  have hq : hoist m.builtins m.globals p.trim.functions (m.functions.map Function.trim) =
      (r, t.map Function.trim) := by
    rw [Program.functions_trim, hoist_trim, hp]
  obtain ⟨result, k, hrun, hrun'⟩ := run_of_functions (n := m) (runOn_functions hp)
    (runOn_functions (m := m.trim) hq) (Eval.globals_trim p.decls) t.interchangeable_trim
  rw [hrun]
  exact hrun'

/-- Runs programs one after another. Returns how each of them ended. -/
def runAll (m : Machine) : List Program → List (Except RuntimeError Outcome) × Machine
  | [] => ([], m)
  | p :: ps =>
    let (result, m) := m.run p
    let (results, m) := m.runAll ps
    (result :: results, m)

theorem runAll_trim_eq (m : Machine) (ps : List Program) :
    m.trim.runAll (ps.map Program.trim) = ((m.runAll ps).1, (m.runAll ps).2.trim) := by
  induction ps generalizing m with
  | nil => rfl
  | cons p ps ih => simp only [List.map_cons, runAll, run_trim, ih]

/-- Where all functions are trimmed, those that are declared already and those of the programs, a session
ends each run in the same way, writes the same and has the same global variables. The functions that it
has in the end are the trimmed ones. -/
theorem runAll_trim (m : Machine) (ps : List Program) :
    let ended := m.runAll ps
    let trimmed := m.trim.runAll (ps.map Program.trim)
    trimmed.1 = ended.1 ∧ trimmed.2.sink = ended.2.sink ∧ trimmed.2.globals = ended.2.globals ∧
      trimmed.2.functions = ended.2.functions.map Function.trim := by
  intro ended trimmed
  have htrimmed : trimmed = (ended.1, ended.2.trim) := runAll_trim_eq m ps
  rw [htrimmed]
  exact ⟨rfl, rfl, rfl, rfl⟩

end Machine

end Scriptlet
