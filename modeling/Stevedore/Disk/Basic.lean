import Stevedore.Files.Tree

/-!
A disk held in memory, and the way from a path to what it stands for. The system follows a path name
by name: each name before the last has to lead to a directory, and two dots lead back to the
directory that holds the one reached so far. There are no links.
-/

namespace Stevedore

/-- A place on a disk: the names that lead to it, the last one first. -/
abbrev Location := List String

/-- What lies on a disk, and where paths without a slash in front of them start. -/
structure Disk where
  entries : SortedMap Location FileEntry := ∅
  working : Location := []

namespace Disk

/-- Why the system does not do what it is asked for. -/
inductive Refusal where
  | missing
  | busy
  | exists
  | notDirectory
  | isDirectory
  | invalid
  | nameTooLong
  | notEmpty
  /-- A zero byte would end the path early. -/
  | zeroByte
deriving DecidableEq, Repr

/-- The refusal in words. -/
def Refusal.message : Refusal → String
  | missing => "No such file or directory (os error 2)"
  | busy => "Device or resource busy (os error 16)"
  | «exists» => "File exists (os error 17)"
  | notDirectory => "Not a directory (os error 20)"
  | isDirectory => "Is a directory (os error 21)"
  | invalid => "Invalid argument (os error 22)"
  | nameTooLong => "File name too long (os error 36)"
  | notEmpty => "Directory not empty (os error 39)"
  | zeroByte => "file name contained an unexpected NUL byte"

/-- The greatest size of a name in bytes. -/
def nameLimit : Nat := 255

/-- The size in bytes from which on a path is too long. -/
def pathLimit : Nat := 4096

/-! ## Following a path -/

/-- The names in a path, dots among them. -/
def names (path : Path) : List String :=
  ((Text.pieces '/' path.text.toList).filter (!·.isEmpty)).map String.ofList

/-- Whether the path is written as that of a directory. -/
def endsInSlash (path : Path) : Bool := path.text.toList.getLast? = some '/'

/-- Whether the path ends in no name of its own: in dots, or at the root. -/
def endsInDots (path : Path) : Bool :=
  match (names path).getLast? with
  | some name => name = "." || name = ".."
  | none => true

variable (d : Disk)

/-- What lies at a place. The root is always there. -/
def entryAt? (l : Location) : Option FileEntry :=
  if l.isEmpty then some .directory else d.entries.get? l

/-- Follows one name, from a directory. -/
def follow (l : Location) (name : String) : Except Refusal Location :=
  match d.entryAt? l with
  | none => .error .missing
  | some (.file _) => .error .notDirectory
  | some .directory =>
    if name = "." then .ok l
    else if name = ".." then .ok l.tail
    else if nameLimit < name.utf8ByteSize then .error .nameTooLong
    else .ok (name :: l)

/-- The place that a path leads to. There may be nothing at it. -/
def locate (path : Path) : Except Refusal Location :=
  if path.text.toList.contains '\x00' then .error .zeroByte
  else if path.text = "" then .error .missing
  else if pathLimit ≤ path.text.utf8ByteSize then .error .nameTooLong
  else (names path).foldlM d.follow (if path.isAbsolute then [] else d.working)

/-- What lies at a path, with its place. -/
def find (path : Path) : Except Refusal (Location × FileEntry) := do
  let l ← d.locate path
  match d.entryAt? l with
  | none => throw .missing
  | some (.file contents) =>
    if endsInSlash path then throw .notDirectory else return (l, .file contents)
  | some .directory => return (l, .directory)

/-- Whether a path leads to a directory. -/
def hasDirectory (path : Path) : Bool :=
  match d.find path with
  | .ok (_, .directory) => true
  | _ => false

/-! ## Reading -/

/-- Reads one file. -/
def read (path : Path) : Except Refusal String :=
  match d.find path with
  | .ok (_, .file contents) => .ok contents
  | .ok (_, .directory) => .error .isDirectory
  | .error r => .error r

/-- The names in a directory, in order. -/
def namesIn (path : Path) : List String :=
  match d.find path with
  | .ok (l, .directory) =>
    d.entries.keys.filterMap fun
      | name :: above => if above = l then some name else none
      | [] => none
  | _ => []

end Disk

end Stevedore
