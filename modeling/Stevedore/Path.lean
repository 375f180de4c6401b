import Stevedore.SortedMap
import Stevedore.Text.Pieces

/-!
Paths on the host. A path keeps the spelling it was written with, and is shown that way, but is
compared by its components: repeated slashes and inner dots do not count, so `/tmp/a/` and
`/tmp//a` are one path in two spellings. Sets of paths and file trees are keyed by `Path.key`.
-/

namespace Stevedore

/-- A path as it was written. -/
structure Path where
  text : String
deriving DecidableEq, Repr, Inhabited

/-- One step of a path. -/
inductive Component where
  /-- The slash at the front of an absolute path. -/
  | root
  /-- The dot at the front of a relative path. -/
  | here
  /-- Two dots. -/
  | up
  | name (text : String)
deriving DecidableEq, Repr

namespace Component

/-- Root, dot and two dots come before every name. -/
def rank : Component → Nat
  | root => 0
  | here => 1
  | up => 2
  | name _ => 3

/-- The name, empty for the other components. -/
def label : Component → String
  | name s => s
  | _ => ""

instance : Ord Component := ⟨compareLex (compareOn rank) (compareOn label)⟩

instance : Std.TransOrd Component :=
  inferInstanceAs (Std.TransCmp (compareLex (compareOn rank) (compareOn label)))

instance : Std.LawfulEqOrd Component where
  eq_of_compare {a b} h := by
    have h : compareLex (compareOn rank) (compareOn label) a b = .eq := h
    rw [compareLex_eq_eq] at h
    have hr : a.rank = b.rank := Std.LawfulEqOrd.eq_of_compare h.1
    have hl : a.label = b.label := Std.LawfulEqOrd.eq_of_compare h.2
    cases a <;> cases b <;> simp_all [rank, label]

/-- The component that a piece between slashes stands for. -/
def ofPiece (piece : List Char) : Component :=
  if piece = ['.'] then here
  else if piece = ['.', '.'] then up
  else name (String.ofList piece)

end Component

/-- What makes two spellings the same path. -/
abbrev PathKey := List Component

namespace Path

/-- Whether the path starts at the root. -/
def isAbsolute (p : Path) : Bool := p.text.toList.head? = some '/'

/-- The spellings of the path's leading parts that end in a component, shortest first. The text
already passed is `passed`; a dot counts only where `atFront` says that nothing precedes it. -/
def cutsOf (atFront : Bool) (passed : List Char) : List (List Char) → List (List Char × Component)
  | [] => []
  | piece :: rest =>
    let spelt := passed ++ piece
    let later := cutsOf false (spelt ++ ['/']) rest
    if piece = [] || (piece = ['.'] && !atFront) then later
    else (spelt, Component.ofPiece piece) :: later

/-- The path's leading parts below the root, shortest first, each with its last component. -/
def cuts (p : Path) : List (List Char × Component) :=
  match p.text.toList with
  | '/' :: rest => cutsOf false ['/'] (Text.pieces '/' rest)
  | s => cutsOf true [] (Text.pieces '/' s)

/-- The path's components. -/
def key (p : Path) : PathKey :=
  (if p.isAbsolute then [.root] else []) ++ p.cuts.map (·.2)

/-- Whether two spellings name the same path. -/
def same (p q : Path) : Bool := p.key = q.key

/-- Whether `p` is `q` or lies below it. -/
def isWithin (p q : Path) : Bool := q.key.isPrefixOf p.key

/-- The path that holds this one: empty for a single relative component, absent for the root and
for a path without components. -/
def parent? (p : Path) : Option Path :=
  match p.cuts.reverse with
  | [] => none
  | _ :: (spelt, _) :: _ => some ⟨String.ofList spelt⟩
  | [_] => some ⟨if p.isAbsolute then "/" else ""⟩

/-- The non-empty paths that hold this one, nearest first. -/
def holders (p : Path) : List Path :=
  match p.cuts.reverse with
  | [] => []
  | _ :: held =>
    held.map (fun c => ⟨String.ofList c.1⟩) ++ if p.isAbsolute then [⟨"/"⟩] else []

/-- The last component, if it is a name. -/
def fileName? (p : Path) : Option String :=
  match p.key.getLast? with
  | some (.name s) => some s
  | _ => none

/-- `q` as seen from the directory `p`: `q` itself if it is absolute. -/
def join (p q : Path) : Path :=
  if q.isAbsolute then q
  else if p.text = "" || p.text.toList.getLast? = some '/' then ⟨p.text ++ q.text⟩
  else ⟨p.text ++ "/" ++ q.text⟩

instance : ToString Path := ⟨Path.text⟩

example : (⟨"/tmp/a/"⟩ : Path).same ⟨"/tmp//./a"⟩ ∧ (⟨"./a"⟩ : Path).same ⟨"a"⟩ = false ∧
    compare (⟨"/d/z"⟩ : Path).key (⟨"/d-z"⟩ : Path).key = .lt := by decide

example : (⟨"a//b.toml"⟩ : Path).parent? = some ⟨"a"⟩ ∧ (⟨"/x"⟩ : Path).parent? = some ⟨"/"⟩ ∧
    (⟨"a/."⟩ : Path).parent? = some ⟨""⟩ ∧ (⟨"/"⟩ : Path).parent? = none := by decide

end Path

/-- A set of paths that keeps the spelling each path was first put in with. -/
abbrev PathSet := SortedMap PathKey Path

namespace PathSet

/-- The set with `p` in it. -/
def add (s : PathSet) (p : Path) : PathSet := s.insertIfNew p.key p

@[simp] theorem contains_add (s : PathSet) (p : Path) (k : PathKey) :
    SortedMap.contains (s.add p) k = (decide (p.key = k) || SortedMap.contains s k) :=
  SortedMap.contains_insertIfNew s p.key k p

theorem get?_add (s : PathSet) (p : Path) (k : PathKey) :
    SortedMap.get? (s.add p) k = (SortedMap.get? s k).or (if k = p.key then some p else none) :=
  SortedMap.get?_insertIfNew s p.key k p

/-- Whether the path is in the set, in whatever spelling. -/
def has (s : PathSet) (p : Path) : Bool := s.contains p.key

/-- The paths, in the order of their components. -/
def paths (s : PathSet) : List Path := s.values

/-- The paths of `s` that are not in `t`. -/
def without (s t : PathSet) : List Path :=
  (s.filter fun k _ => !t.contains k).values

end PathSet

end Stevedore
