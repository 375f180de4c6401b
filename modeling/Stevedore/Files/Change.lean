import Stevedore.Path

/-!
The changes that a run makes on the host, and how they can fail.
-/

namespace Stevedore

/-- A change on the host. -/
inductive FileChange where
  /-- Writes a file. The directories that hold it are made as needed. -/
  | write (path : Path) (contents : String)
  /-- Makes a directory, and the directories that hold it. -/
  | createDirectory (path : Path)
  | removeFile (path : Path)
  /-- Removes a directory with everything below it. -/
  | removeDirectory (path : Path)
deriving DecidableEq, Repr, Inhabited

/-- The path that the change is about. -/
def FileChange.path : FileChange → Path
  | write path _ | createDirectory path | removeFile path | removeDirectory path => path

/-- Why a change failed: what was attempted, and what the system says about it. -/
structure FileError where
  headline : String
  cause : Option String := none
deriving DecidableEq, Repr, Inhabited

/-- The failure in words, with its cause. -/
def FileError.message (e : FileError) : String :=
  match e.cause with
  | none => e.headline
  | some cause => s!"{e.headline}: {cause}"

end Stevedore
