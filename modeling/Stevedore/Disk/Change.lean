import Stevedore.Disk.Basic
import Stevedore.Text.Quoted

/-!
Changes on a disk. A change that is made in several steps may fail at a later one; what the earlier
ones did stays.
-/

namespace Stevedore.Disk

/-- Something that is done on a disk, and that the system may refuse. -/
abbrev Attempt := ExceptT Refusal (StateM Disk)

/-- Looks something up. -/
def ask {α : Type} (f : Disk → Except Refusal α) : Attempt α := fun d => (f d, d)

/-- Puts something at a place. -/
def put (l : Location) (entry : FileEntry) : Attempt Unit :=
  modify fun d => { d with entries := d.entries.insert l entry }

/-- Keeps what lies at some places. -/
def keep (p : Location → Bool) : Attempt Unit :=
  modify fun d => { d with entries := d.entries.filter fun l _ => p l }

/-! ## Single steps -/

/-- Makes one directory. -/
def makeDirectory (path : Path) : Attempt Unit := do
  let l ← ask (·.locate path)
  if endsInDots path || ((← get).entryAt? l).isSome then throw .exists
  put l .directory

/-- Writes one file. -/
def writeFile (path : Path) (contents : String) : Attempt Unit := do
  let l ← ask (·.locate path)
  if endsInDots path || endsInSlash path || (← get).entryAt? l = some .directory then
    throw .isDirectory
  put l (.file contents)

/-- Removes one file. -/
def removeFile (path : Path) : Attempt Unit := do
  let l ← ask (·.locate path)
  if endsInDots path then throw .isDirectory
  match (← get).entryAt? l with
  | none => throw .missing
  | some .directory => throw .isDirectory
  | some (.file _) =>
    if endsInSlash path then throw .notDirectory
    keep (· ≠ l)

/-- Removes an empty directory. -/
def removeEmptyDirectory (path : Path) : Attempt Unit := do
  let (l, _) ← ask (·.find path)
  match (names path).getLast? with
  | none => throw .busy
  | some "." => throw .invalid
  | some ".." => throw .notEmpty
  | some _ => keep (· ≠ l)

/-! ## Directories and what they hold -/

/-- Makes a directory, unless there is one. -/
def ensureDirectory (path : Path) : Attempt Unit := fun d =>
  match makeDirectory path d with
  | (.error .exists, d) => (if d.hasDirectory path then .ok () else .error .exists, d)
  | result => result

/-- Goes up from a directory to the first one that is there or can be made, and gives back those
that have to be made after it, the highest first. The paths are those from the directory upward. -/
def lackingDirectories : List Path → Attempt (List Path)
  | [] => pure []
  | path :: above => fun d =>
    match ensureDirectory path d with
    | (.error .missing, d) => ((· ++ [path]) <$> lackingDirectories above) d
    | (.error r, d) => (.error r, d)
    | (.ok (), d) => (.ok [], d)

/-- Makes a directory and the directories that hold it. -/
def makeDirectories (path : Path) : Attempt Unit := do
  let upward := (path :: path.holders).takeWhile fun p => p.text ≠ "/" && p.text ≠ ""
  (← lackingDirectories upward).forM ensureDirectory

/-- Removes a directory with everything below it: first what is below, then the directory. That it
is gone by then is no failure. -/
def removeDirectories (path : Path) : Attempt Unit := do
  match ← ask (·.find path) with
  | (_, .file _) => throw .notDirectory
  | (l, .directory) =>
    keep fun below => below = l || !l.isSuffixOf below
    tryCatch (removeEmptyDirectory path) fun
      | .missing => pure ()
      | r => throw r

/-! ## Changes -/

/-- Does something on a path, and says so if it is refused. -/
def attempting (attempt : String) (path : Path) (done : Attempt Unit) :
    ExceptT FileError (StateM Disk) Unit :=
  done.adapt fun r => ⟨s!"{attempt} {Text.quoted path.text}", some r.message⟩

/-- Makes a change. The directories for a file that cannot be written stay. -/
def change : FileChange → ExceptT FileError (StateM Disk) Unit
  | .write path contents => do
    if let some p := path.parent? then attempting "creating dir" p (makeDirectories p)
    attempting "writing to file" path (writeFile path contents)
  | .createDirectory path => attempting "creating dir" path (makeDirectories path)
  | .removeFile path => attempting "removing file" path (removeFile path)
  | .removeDirectory path => attempting "removing dir" path (removeDirectories path)

/-- A disk with a working directory, with other directories and files on it as far as they can be
made. Their paths may start at the working directory. -/
def ofFiles (working : Path) (directories : List Path) (files : List (Path × String)) : Disk :=
  let changes := directories.map .createDirectory ++ files.map fun (p, c) => .write p c
  let start := (change (.createDirectory working) {}).2
  let place := match start.locate working with
    | .ok l => l
    | .error _ => []
  changes.foldl (fun d c => (change c d).2) { start with working := place }

/-- A file on a disk where it alone was written, and why other paths lead to none. -/
example :
    let d := ofFiles ⟨"/w"⟩ [] [(⟨"a/b"⟩, "x")]
    (d.read ⟨"/w/a/../a/./b"⟩).toOption = some "x" ∧
      d.read ⟨"a/b/"⟩ matches .error .notDirectory ∧ d.read ⟨"a"⟩ matches .error .isDirectory ∧
      d.read ⟨"c/.."⟩ matches .error .missing ∧
      (change (.removeDirectory ⟨"a/."⟩) d).2.namesIn ⟨"/w"⟩ = ["a"] ∧
      (change (.removeDirectory ⟨"a/."⟩) d).2.namesIn ⟨"/w/a"⟩ = [] := by decide +kernel

end Stevedore.Disk
