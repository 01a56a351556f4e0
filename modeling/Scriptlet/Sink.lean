-- SUMMARY: Where a program's output goes: bytes, up to a capacity, and a final flush.
import Scriptlet.Action
import Scriptlet.Machine.Error

/-!
# Sinks

A sink keeps the bytes that are written to it. One with a capacity keeps no more
than that: a text that does not fit is cut to the room left, and the write
fails. Nothing is needed to write an empty text.
-/
namespace Scriptlet

/-- A sink with what was written to it. -/
structure Sink where
  written : ByteArray := .empty
  /-- The greatest number of bytes that are kept; there may be no such bound. -/
  capacity : Option Nat := none
  /-- Does the final flush fail? -/
  flushFails : Bool := false

namespace Sink

/-- Adds bytes at the end. -/
def append (s : Sink) (bytes : ByteArray) : Sink := { s with written := s.written ++ bytes }

/-- The number of the given bytes that the sink still keeps. -/
def room (s : Sink) (bytes : ByteArray) : Nat :=
  match s.capacity with
  | none => bytes.size
  | some capacity => min bytes.size (capacity - s.written.size)

/-- Writes a text, in UTF-8. -/
def write (text : String) : Action Sink WriteError Unit := do
  let s ← get
  let bytes := text.toByteArray
  set (s.append (bytes.extract 0 (s.room bytes)))
  if s.room bytes < bytes.size then throw .sinkFull

/-- Flushes the sink at the end of a run. -/
def flush (s : Sink) : Except WriteError Unit :=
  if s.flushFails then .error .flushFailed else .ok ()

/-- An empty sink like this one. -/
def emptied (s : Sink) : Sink := { s with written := .empty }

/-- What the sink holds, as a text. A capacity may have cut off the last character, of which
at most three bytes are left then; U+FFFD stands for them. -/
def text (s : Sink) : String :=
  let without (cut : Nat) := String.fromUTF8? (s.written.extract 0 (s.written.size - cut))
  match without 0 with
  | some text => text
  | none => (([1, 2, 3].findSome? without).getD "") ++ "\ufffd"

end Sink

end Scriptlet
