import Stevedore.Files.Injected

/-!
What changes of a file tree leave alone.

A file that is put in brings the directories that hold it, and a directory that is taken away takes
along what is below it. So a change reaches other paths than its own, but only along one line: up
from the path, when something is added (`get?_put_putHolders_of_not_above`), and down from it, when
something is taken away (`get?_dropWithin`). The first needs that the paths which hold a path are
named by the first parts of its key (`Path.key_prefix_of_mem_holders`); the second, that everything
in a tree is spelled like the key that it has there, which is part of being a tree.

What is added at a path does not depend on what is elsewhere, so two trees that are alike at a path
remain alike there when the same is added to both (`get?_addDirectory_congr`).
-/

namespace Stevedore

/-! ## Paths that hold a path -/

namespace Path

/-- A cut is the text of the pieces that lead to it, and these have the same cuts up to there. -/
theorem exists_front_of_cut {atFront : Bool} {passed : List Char} {pieces : List (List Char)}
    {before after : List (List Char × Component)} {cut : List Char × Component}
    (h : cutsOf atFront passed pieces = before ++ cut :: after) :
    ∃ front, front ≠ [] ∧ front <+: pieces ∧ cut.1 = passed ++ Text.join '/' front ∧
      cutsOf atFront passed front = before ++ [cut] := by
  induction pieces generalizing atFront passed before with
  | nil => simp [cutsOf] at h
  | cons piece rest ih =>
    rw [cutsOf] at h
    -- Pieces that come later are cut in the same way with this one in front.
    have hlater : ∀ {before},
        cutsOf false (passed ++ piece ++ ['/']) rest = before ++ cut :: after →
        ∃ front, front ≠ [] ∧ front <+: rest ∧
          cut.1 = passed ++ Text.join '/' (piece :: front) ∧
            cutsOf false (passed ++ piece ++ ['/']) front = before ++ [cut] := by
      intro before hrest
      obtain ⟨front, hne, hpart, hcut, hfront⟩ := ih hrest
      obtain ⟨q, qs, rfl⟩ := List.exists_cons_of_ne_nil hne
      exact ⟨q :: qs, hne, hpart, by simp [hcut, Text.join], hfront⟩
    split at h
    · next hskip =>
      obtain ⟨front, -, hpart, hcut, hfront⟩ := hlater h
      refine ⟨piece :: front, List.cons_ne_nil _ _, List.cons_prefix_cons.2 ⟨rfl, hpart⟩, hcut, ?_⟩
      rw [cutsOf, if_pos hskip, hfront]
    · next hkeep =>
      cases before with
      | nil =>
        obtain ⟨rfl, -⟩ := List.cons.inj h
        refine ⟨[piece], List.cons_ne_nil _ _, List.cons_prefix_cons.2 ⟨rfl, List.nil_prefix⟩, rfl,
          ?_⟩
        rw [cutsOf, if_neg hkeep]
        rfl
      | cons first before =>
        obtain ⟨rfl, hrest⟩ := List.cons.inj h
        obtain ⟨front, -, hpart, hcut, hfront⟩ := hlater hrest
        have hpieces : piece :: front <+: piece :: rest := List.cons_prefix_cons.2 ⟨rfl, hpart⟩
        refine ⟨piece :: front, List.cons_ne_nil _ _, hpieces, hcut, ?_⟩
        rw [cutsOf, if_neg hkeep, hfront]
        rfl

theorem cuts_of_absolute {s : List Char} :
    (⟨String.ofList ('/' :: s)⟩ : Path).cuts = cutsOf false ['/'] (Text.pieces '/' s) := by
  rw [cuts, String.toList_ofList]
  rfl

theorem cuts_of_relative {s : List Char} (h : s.head? ≠ some '/') :
    (⟨String.ofList s⟩ : Path).cuts = cutsOf true [] (Text.pieces '/' s) := by
  rw [cuts, String.toList_ofList]
  split
  · exact absurd rfl h
  · rfl

theorem isAbsolute_ofList {s : List Char} :
    (⟨String.ofList s⟩ : Path).isAbsolute = decide (s.head? = some '/') := by
  rw [isAbsolute, String.toList_ofList]

/-- A relative path still is relative when it is cut. -/
theorem head?_join_ne {s : List Char} {front : List (List Char)} (hs : s.head? ≠ some '/')
    (hne : front ≠ []) (hpart : front <+: Text.pieces '/' s)
    (hcuts : cutsOf true [] front ≠ []) : (Text.join '/' front).head? ≠ some '/' := by
  obtain ⟨piece, front, rfl⟩ := List.exists_cons_of_ne_nil hne
  obtain ⟨rest, hrest⟩ := hpart
  cases piece with
  | cons c piece =>
    have hnot : '/' ∉ c :: piece :=
      Text.not_mem_of_mem_pieces (s := s) (by rw [← hrest]; exact List.mem_cons_self ..)
    intro hhead
    have hc : c = '/' := by
      cases front <;> simpa [Text.join] using hhead
    exact hnot (hc ▸ List.mem_cons_self ..)
  | nil =>
    cases s with
    | nil =>
      obtain ⟨rfl, -⟩ : front = [] ∧ rest = [] := by
        simpa [Text.pieces] using (List.cons.inj hrest).2
      simp [cutsOf] at hcuts
    | cons c s =>
      rw [Text.pieces, if_neg (by simpa using hs)] at hrest
      split at hrest <;> simp at hrest

/-- The path up to a cut has the cuts up to there. -/
theorem key_of_cut {p : Path} {before after : List (List Char × Component)}
    {cut : List Char × Component} (h : p.cuts = before ++ cut :: after) :
    (⟨String.ofList cut.1⟩ : Path).key =
      (if p.isAbsolute then [.root] else []) ++ (before ++ [cut]).map (·.2) := by
  obtain ⟨text⟩ := p
  rw [← String.ofList_toList (s := text)] at h ⊢
  generalize text.toList = s at h ⊢
  by_cases hs : s.head? = some '/'
  · obtain ⟨s, rfl⟩ := List.head?_eq_some_iff.1 hs
    rw [cuts_of_absolute] at h
    obtain ⟨front, hne, hpart, hcut, hfront⟩ := exists_front_of_cut h
    have hpieces : Text.pieces '/' (Text.join '/' front) = front :=
      Text.pieces_join hne fun p hp => Text.not_mem_of_mem_pieces (hpart.subset hp)
    rw [key, hcut, List.singleton_append, cuts_of_absolute, hpieces, hfront, isAbsolute_ofList,
      isAbsolute_ofList]
    rfl
  · rw [cuts_of_relative hs] at h
    obtain ⟨front, hne, hpart, hcut, hfront⟩ := exists_front_of_cut h
    have hhead : (Text.join '/' front).head? ≠ some '/' :=
      head?_join_ne hs hne hpart (by rw [hfront]; simp)
    have hpieces : Text.pieces '/' (Text.join '/' front) = front :=
      Text.pieces_join hne fun p hp => Text.not_mem_of_mem_pieces (hpart.subset hp)
    rw [key, hcut, List.nil_append, cuts_of_relative hhead, hpieces, hfront, isAbsolute_ofList,
      isAbsolute_ofList, decide_eq_false hhead, decide_eq_false hs]

/-- **The paths that hold a path have the first parts of its key.** -/
theorem key_prefix_of_mem_holders {p holder : Path} (h : holder ∈ p.holders) :
    holder.key <+: p.key := by
  unfold holders at h
  split at h
  · simp at h
  · next last held hcuts =>
    have hcuts : p.cuts = held.reverse ++ [last] := by
      rw [← List.reverse_cons, ← hcuts, List.reverse_reverse]
    rcases List.mem_append.1 h with h | h
    · obtain ⟨cut, hcut, rfl⟩ := List.mem_map.1 h
      obtain ⟨before, after, hheld⟩ := List.append_of_mem (List.mem_reverse.2 hcut)
      rw [hheld, List.append_assoc, List.cons_append] at hcuts
      have hfront : before ++ [cut] <+: p.cuts :=
        ⟨after ++ [last], by rw [hcuts, ← List.append_cons]⟩
      rw [key_of_cut hcuts, key]
      exact (List.prefix_append_right_inj _).2 (hfront.map _)
    · split at h
      · next habsolute =>
        obtain rfl := List.mem_singleton.1 h
        have hroot : (⟨"/"⟩ : Path).key = [.root] := by decide
        rw [hroot, key, if_pos habsolute]
        exact List.prefix_append _ _
      · simp at h

end Path

namespace FileTree

variable {t t' : FileTree} {path : Path} {k : PathKey} {entry : FileEntry}

/-- The tree with a directory, and with the directories that hold it. -/
def addDirectory (t : FileTree) (path : Path) : FileTree := (t.putHolders path).put path .directory

/-- The tree with these directories. -/
def withDirectories (t : FileTree) (paths : List Path) : FileTree := paths.foldl addDirectory t

/-- What lies below a path. -/
def below (t : FileTree) (path : Path) : FileTree :=
  t.filter fun k _ => path.key.isPrefixOf k && k ≠ path.key

/-- Trees are the same if they are alike at every key. -/
theorem ext_get? (h : ∀ k, t.entries.get? k = t'.entries.get? k) : t = t' := by
  obtain ⟨entries, _⟩ := t
  obtain ⟨entries', _⟩ := t'
  obtain rfl : entries = entries' := SortedMap.ext_get? h
  rfl

theorem get?_filter (t : FileTree) (p : PathKey → Path × FileEntry → Bool) (k : PathKey) :
    (t.filter p).entries.get? k = (t.entries.get? k).filter (p k) :=
  SortedMap.get?_filter ..

theorem get?_below (t : FileTree) (path : Path) (k : PathKey) : (t.below path).entries.get? k =
    if path.key <+: k ∧ k ≠ path.key then t.entries.get? k else none := by
  refine (t.get?_filter _ k).trans ?_
  cases t.entries.get? k with
  | none => simp
  | some e => simp [Option.filter_some, List.isPrefixOf_iff_prefix]

/-- Trees are alike below a path if they are at every key below it. -/
theorem below_eq_below
    (h : ∀ k, path.key <+: k → k ≠ path.key → t.entries.get? k = t'.entries.get? k) :
    t.below path = t'.below path := by
  refine ext_get? fun k => ?_
  rw [get?_below, get?_below]
  split
  · next hk => exact h k hk.1 hk.2
  · rfl

/-! ## Adding -/

theorem get?_putIfNew (t : FileTree) (path : Path) (k : PathKey) :
    (t.putIfNew path).entries.get? k =
      (t.entries.get? k).or (if k = path.key then some (path, .directory) else none) :=
  SortedMap.get?_insertIfNew ..

theorem get?_put (t : FileTree) (path : Path) (entry : FileEntry) (k : PathKey) :
    (t.put path entry).entries.get? k =
      if k = path.key then some (t.spelling path, entry) else t.entries.get? k :=
  SortedMap.get?_insert ..

theorem get?_putHolders_congr (h : t.entries.get? k = t'.entries.get? k) (path : Path) :
    (t.putHolders path).entries.get? k = (t'.putHolders path).entries.get? k := by
  unfold putHolders
  generalize path.holders = holders
  induction holders generalizing t t' with
  | nil => exact h
  | cons holder holders ih =>
    refine ih ?_
    rw [get?_putIfNew, get?_putIfNew, h]

theorem get?_putHolders_of_not_above (h : ¬ k <+: path.key) (t : FileTree) :
    (t.putHolders path).entries.get? k = t.entries.get? k := by
  unfold putHolders
  have hholders : ∀ holder ∈ path.holders, k ≠ holder.key := by
    rintro holder hholder rfl
    exact h (Path.key_prefix_of_mem_holders hholder)
  generalize path.holders = holders at hholders
  induction holders generalizing t with
  | nil => rfl
  | cons holder holders ih =>
    obtain ⟨hfirst, hrest⟩ := List.forall_mem_cons.1 hholders
    rw [List.foldl_cons, ih _ hrest, get?_putIfNew, if_neg hfirst, Option.or_none]

/-- What is put at a path changes nothing elsewhere, except for the paths that hold it. -/
theorem get?_put_putHolders_of_not_above (h : ¬ k <+: path.key) (t : FileTree) (entry : FileEntry) :
    ((t.putHolders path).put path entry).entries.get? k = t.entries.get? k := by
  have hne : k ≠ path.key := by
    rintro rfl
    exact h (List.prefix_refl _)
  rw [get?_put, if_neg hne, get?_putHolders_of_not_above h]

theorem get?_addDirectory_congr (h : t.entries.get? k = t'.entries.get? k) (path : Path) :
    (t.addDirectory path).entries.get? k = (t'.addDirectory path).entries.get? k := by
  have hholders := get?_putHolders_congr h path
  rw [addDirectory, addDirectory, get?_put, get?_put]
  split
  · next hk =>
    rw [spelling, spelling, ← hk, hholders]
  · exact hholders

theorem get?_withDirectories_of_not_above {paths : List Path}
    (h : ∀ path ∈ paths, ¬ k <+: path.key) (t : FileTree) :
    (t.withDirectories paths).entries.get? k = t.entries.get? k := by
  induction paths generalizing t with
  | nil => rfl
  | cons path paths ih =>
    obtain ⟨hfirst, hrest⟩ := List.forall_mem_cons.1 h
    exact (ih hrest _).trans (get?_put_putHolders_of_not_above hfirst t _)

theorem withDirectories_append (t : FileTree) (paths paths' : List Path) :
    t.withDirectories (paths ++ paths') = (t.withDirectories paths).withDirectories paths' :=
  List.foldl_append

/-! ## Taking away -/

theorem get?_drop (t : FileTree) (path : Path) (k : PathKey) :
    (t.drop path).entries.get? k = if k = path.key then none else t.entries.get? k := by
  refine (t.get?_filter _ k).trans ?_
  by_cases hk : k = path.key
  · simp [hk]
  · cases h : t.entries.get? k <;> simp [hk]

/-- With a directory all goes that is below it. -/
theorem get?_dropWithin (t : FileTree) (path : Path) (k : PathKey) :
    (t.dropWithin path).entries.get? k = if path.key <+: k then none else t.entries.get? k := by
  refine (t.get?_filter _ k).trans ?_
  cases hk : t.entries.get? k with
  | none => simp
  | some e =>
    have hkey := t.spelled k e hk
    simp [Option.filter_some, Path.isWithin, hkey, ← Bool.not_eq_true, List.isPrefixOf_iff_prefix,
      ite_not]

/-- Where something is left, it was there before. -/
theorem get?_of_get?_dropWithin {e : Path × FileEntry}
    (h : (t.dropWithin path).entries.get? k = some e) : t.entries.get? k = some e :=
  (Option.filter_eq_some_iff.1 ((t.get?_filter _ k).symm.trans h)).1

end FileTree

end Stevedore
