import Stevedore.Files.Change

/-!
A tree of files held in memory. Paths are told apart by their components, and each is shown in the
spelling with which it was first put in.
-/

namespace Stevedore

/-- What a path stands for. -/
inductive FileEntry where
  | file (contents : String)
  | directory
deriving DecidableEq, Repr, Inhabited

/-- The paths that exist. -/
structure FileTree where
  entries : SortedMap PathKey (Path × FileEntry) := ∅
  /-- Each is shown in a spelling of the path that it is kept at. -/
  spelled : ∀ k e, entries.get? k = some e → e.1.key = k := by simp
deriving DecidableEq

namespace FileTree

variable (t : FileTree)

/-- What is at a path. -/
def entry? (path : Path) : Option FileEntry := (t.entries.get? path.key).map (·.2)

/-- All paths, in order. -/
def paths : List Path := t.entries.values.map (·.1)

/-- How a path is shown when something is put there. -/
def spelling (path : Path) : Path := ((t.entries.get? path.key).map (·.1)).getD path

theorem key_spelling (path : Path) : (t.spelling path).key = path.key := by
  unfold spelling
  cases h : t.entries.get? path.key with
  | none => rfl
  | some e => exact t.spelled path.key e h

/-- Puts something at a path, whatever was there before. -/
def put (path : Path) (entry : FileEntry) : FileTree where
  entries := t.entries.insert path.key (t.spelling path, entry)
  spelled := by
    intro k e h
    rw [SortedMap.get?_insert] at h
    split at h
    · next hk =>
      obtain rfl := Option.some.inj h
      exact (t.key_spelling path).trans hk.symm
    · exact t.spelled k e h

/-- Makes a directory of a path at which there is nothing. -/
def putIfNew (path : Path) : FileTree where
  entries := t.entries.insertIfNew path.key (path, .directory)
  spelled := by
    intro k e h
    rw [SortedMap.get?_insertIfNew, Option.or_eq_some_iff] at h
    rcases h with h | ⟨-, h⟩
    · exact t.spelled k e h
    · split at h
      · next hk =>
        obtain rfl := Option.some.inj h
        exact hk.symm
      · cases h

/-- Makes directories of the paths that hold this one, where there is nothing. -/
def putHolders (path : Path) : FileTree := path.holders.foldl putIfNew t

/-- What satisfies `p`. -/
def filter (p : PathKey → Path × FileEntry → Bool) : FileTree where
  entries := t.entries.filter p
  spelled := by
    intro k e h
    rw [SortedMap.get?_filter, Option.filter_eq_some_iff] at h
    exact t.spelled k e h.1

/-- Takes away what is at a path. -/
def drop (path : Path) : FileTree := t.filter fun k _ => k ≠ path.key

/-- Takes away a path and everything below it. -/
def dropWithin (path : Path) : FileTree := t.filter fun _ e => !e.1.isWithin path

/-- A file with the directories that hold it. -/
def addFile (path : Path) (contents : String) : FileTree :=
  (t.putHolders path).put path (.file contents)

end FileTree

end Stevedore
