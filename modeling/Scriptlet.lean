import Scriptlet.Main
import Scriptlet.Proofs.Machine.Steps
import Scriptlet.Proofs.Machine.Simulation
import Scriptlet.Proofs.Semantics
import Scriptlet.Proofs.Semantics.Sound
import Scriptlet.Proofs.Semantics.Complete
import Scriptlet.Proofs.Machine.Session
import Scriptlet.Proofs.Semantics.Agreement
import Scriptlet.Proofs.Machine.Effects
import Scriptlet.Proofs.Machine.Fuel
import Scriptlet.Proofs.Machine.Isolation
import Scriptlet.Proofs.Machine.Limits
import Scriptlet.Proofs.Machine.Bindings
import Scriptlet.Proofs.Decimal.Numerals
import Scriptlet.Proofs.Expressions
import Scriptlet.Proofs.Grammar
import Scriptlet.Proofs.Grammar.Follow
import Scriptlet.Proofs.Grammar.Limits
import Scriptlet.Proofs.Grammar.Unambiguous
import Scriptlet.Proofs.Parse.Agreement
import Scriptlet.Proofs.Machine.Depth
import Scriptlet.Proofs.Token.Pattern
import Scriptlet.Proofs.Token.Spelling
import Scriptlet.Proofs.Token.Tiling
import Scriptlet.Proofs.Writing
import Scriptlet.Proofs.Writing.Derivation
import Scriptlet.Proofs.Writing.Program
import Scriptlet.Proofs.Writing.RoundTrip
import Scriptlet.Proofs.Machine.Incremental
import Scriptlet.Proofs.Machine.Capacity
import Scriptlet.Proofs.Parse.Moves
import Scriptlet.Proofs.Parse.InStep
import Scriptlet.Proofs.Parse.Lines
import Scriptlet.Proofs.Parse.Words
import Scriptlet.Proofs.Parse.CorrectPrefix
import Scriptlet.Proofs.Parse.Ensures
import Scriptlet.Proofs.Token.Faults
import Scriptlet.Proofs.Source.Lines
import Scriptlet.Proofs.Source.Report
import Scriptlet.Proofs.Parse.Faults
import Scriptlet.Proofs.Idents
import Scriptlet.Proofs.Machine.Builtins
import Scriptlet.Proofs.Safety
import Scriptlet.Proofs.Machine.Frame
import Scriptlet.Proofs.Machine.Independence
import Scriptlet.Proofs.Machine.Handlers
import Scriptlet.Proofs.Literals
import Scriptlet.Proofs.Console.Lines
import Scriptlet.Proofs.Console.Agreement
import Scriptlet.Proofs.Token.Layout
import Scriptlet.Proofs.Token.Refusals
import Scriptlet.Proofs.Machine.FunctionTables
import Scriptlet.Proofs.Machine.DeadCode
import Scriptlet.Proofs.Machine.Hoisting
import Scriptlet.Proofs.Parse.Requests
import Scriptlet.Proofs.Machine.Recursion
import Scriptlet.Proofs.Machine.Integers
import Scriptlet.Proofs.Parse.Progress
import Scriptlet.Proofs.Parse.Descent
import Scriptlet.Proofs.Arithmetic
import Scriptlet.Proofs.Source.Positions
import Scriptlet.Proofs.Parse.Numbers
import Scriptlet.Proofs.Parse.TooDeep
import Scriptlet.Proofs.Parse.Places
import Scriptlet.Proofs.Parse.Cut
import Scriptlet.Proofs.Parse.PrematureEnd
