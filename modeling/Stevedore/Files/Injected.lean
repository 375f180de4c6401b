import Stevedore.Files.Tree
import Stevedore.Text.Quoted

/-!
Files held in memory, on which chosen changes fail. The tree is lenient: a file may be written
where a directory is, and below a file.
-/

namespace Stevedore

/-- A file tree and the paths on which changes fail. -/
structure InjectedFiles where
  tree : FileTree
  failingWrites : PathSet := ∅
  failingRemovals : PathSet := ∅

namespace InjectedFiles

/-- The directory for temporary files. -/
def temporaryDirectory : Path := ⟨"/tmp"⟩

/-- Nothing but the directory for temporary files. -/
def fresh : InjectedFiles := ⟨FileTree.putIfNew {} temporaryDirectory, ∅, ∅⟩

variable (files : InjectedFiles)

/-- Puts a file in, with the directories that hold it. -/
def addFile (path : Path) (contents : String) : InjectedFiles :=
  { files with tree := files.tree.addFile path contents }

/-- Makes writing or creating a path fail. -/
def failWrite (path : Path) : InjectedFiles :=
  { files with failingWrites := files.failingWrites.add path }

/-- Makes the removal of a path fail. -/
def failRemoval (path : Path) : InjectedFiles :=
  { files with failingRemovals := files.failingRemovals.add path }

/-- A change that is refused for a reason. -/
def refused (reason : String) (path : Path) : Except FileError FileTree :=
  .error ⟨s!"{reason}: {Text.quoted path.text}", none⟩

/-- The tree after a change, or why the change is refused. -/
def changed : FileChange → Except FileError FileTree
  | .write path contents =>
    if files.failingWrites.has path then refused "Permission denied" path
    else .ok (files.tree.addFile path contents)
  | .createDirectory path =>
    if files.failingWrites.has path then refused "Permission denied" path
    else
      match files.tree.entry? path with
      | some (.file _) => refused "File exists" path
      | _ => .ok ((files.tree.putHolders path).put path .directory)
  | .removeFile path =>
    if files.failingRemovals.has path then refused "Permission denied" path
    else
      match files.tree.entry? path with
      | some (.file _) => .ok (files.tree.drop path)
      | some .directory => refused "Is a directory" path
      | none => refused "File not found" path
  | .removeDirectory path =>
    if files.failingRemovals.has path then refused "Permission denied" path
    else
      match files.tree.entry? path with
      | some .directory => .ok (files.tree.dropWithin path)
      | some (.file _) => refused "Not a directory" path
      | none => refused "Directory not found" path

/-- Makes a change, if it is not refused. -/
def apply (request : FileChange) : Except FileError Unit × InjectedFiles :=
  match files.changed request with
  | .ok tree => (.ok (), { files with tree })
  | .error e => (.error e, files)

end InjectedFiles

end Stevedore
