-- SUMMARY: The directory that the command runs in, and what reading a path from inside it gives.
import Scriptlet.Table

/-!
# Directories

The command runs in a directory that holds files only. A path is read by a walk
along its parts, which starts there, or at the root if the path begins with a
slash. Of the directories above nothing is known but that they are directories,
so no name is found in them.
-/
namespace Scriptlet

-- ---------------------------------------------------------------------------
-- Errors
-- ---------------------------------------------------------------------------

/-- Why the text of a file cannot be read. -/
inductive FileError where
  | notFound
  | notDirectory
  | isDirectory
  | nameTooLong
  | notText
  | unreadable (reason : String)
  deriving Repr, DecidableEq

/-- The fault in words. -/
def FileError.message : FileError → String
  | .notFound => "No such file or directory (os error 2)"
  | .notDirectory => "Not a directory (os error 20)"
  | .isDirectory => "Is a directory (os error 21)"
  | .nameTooLong => "File name too long (os error 36)"
  | .notText => "stream did not contain valid UTF-8"
  | .unreadable reason => reason

-- ---------------------------------------------------------------------------
-- Paths
-- ---------------------------------------------------------------------------

/-- A directory that holds files only. -/
structure Directory where
  files : Table ByteArray := {}

/-- Where a walk along a path stands: in the directory, in one above it, or at a file of it. -/
inductive Place where
  | here
  | above
  | file (bytes : ByteArray)

namespace Directory

/-- The greatest length in bytes of a name. -/
def maxNameLength : Nat := 255

/-- The greatest length in bytes of a path. -/
def maxPathLength : Nat := 4095

/-- Looks for a name. Only the directory itself holds any. -/
def find (d : Directory) (place : Place) (name : String) : Except FileError Place :=
  if maxNameLength < name.utf8ByteSize then .error .nameTooLong
  else
    match place, d.files.get? name with
    | .here, some bytes => .ok (.file bytes)
    | _, _ => .error .notFound

/-- Goes on by one part of a path. From a file no part leads on, not even the empty one that a
slash at the end leaves. -/
def step (d : Directory) (place : Place) (part : String) : Except FileError Place :=
  match place with
  | .file _ => .error .notDirectory
  | place =>
    if part = "" ∨ part = "." then .ok place
    else if part = ".." then .ok .above
    else d.find place part

/-- Where a path starts. -/
def start (path : String) : Place := if path.startsWith "/" then .above else .here

/-- Walks along a path. The empty path leads nowhere. -/
def walk (d : Directory) (path : String) : Except FileError Place :=
  if path = "" then .error .notFound
  else if maxPathLength < path.utf8ByteSize then .error .nameTooLong
  else (path.splitOn "/").foldlM d.step (start path)

/-- The bytes of the file at a path. -/
def read (d : Directory) (path : String) : Except FileError ByteArray := do
  match ← d.walk path with
  | .file bytes => .ok bytes
  | _ => .error .isDirectory

end Directory

end Scriptlet
