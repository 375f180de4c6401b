/-!
Finite maps whose entries stand in ascending order of their keys, so that a map is walked in one
order only and two maps with the same entries are equal.

The order of the keys is any lawful `Ord`. Each operation comes with the equation for looking up
(`get?_insert`), and `ext_get?` says that lookups determine the map.
-/

namespace Stevedore

/-- A finite map with its entries in strictly ascending order of the keys. -/
structure SortedMap (κ : Type u) (α : Type v) [Ord κ] where
  /-- The entries, smallest key first. -/
  entries : List (κ × α)
  /-- The keys ascend strictly. -/
  ascending : entries.Pairwise fun a b => compare a.1 b.1 = .lt
deriving DecidableEq

/-- A map keyed by names, in ascending order of code points. -/
abbrev NameMap (α : Type v) := SortedMap String α

namespace SortedMap

variable {κ : Type u} {α : Type v} {β : Type w} [Ord κ]

/-! ## Reading -/

/-- The map without entries. -/
def empty : SortedMap κ α := ⟨[], .nil⟩

instance : EmptyCollection (SortedMap κ α) := ⟨empty⟩
instance : Inhabited (SortedMap κ α) := ⟨empty⟩

/-- The keys, ascending. -/
def keys (m : SortedMap κ α) : List κ := m.entries.map (·.1)

/-- The values, in order of their keys. -/
def values (m : SortedMap κ α) : List α := m.entries.map (·.2)

/-- The number of entries. -/
def size (m : SortedMap κ α) : Nat := m.entries.length

/-- Whether nothing is bound. -/
def isEmpty (m : SortedMap κ α) : Bool := m.entries.isEmpty

/-- The entries that satisfy `p`. -/
def filter (p : κ → α → Bool) (m : SortedMap κ α) : SortedMap κ α :=
  ⟨m.entries.filter fun e => p e.1 e.2, m.ascending.filter _⟩

/-- The same keys with each value replaced by what `f` makes of it. -/
def mapValues (f : κ → α → β) (m : SortedMap κ α) : SortedMap κ β :=
  ⟨m.entries.map fun e => (e.1, f e.1 e.2), by
    simpa [List.pairwise_map] using m.ascending⟩

section Lookup

variable [DecidableEq κ]

/-- What `k` is bound to. -/
def get? (m : SortedMap κ α) (k : κ) : Option α :=
  m.entries.lookup k

/-- Whether `k` is bound. -/
def contains (m : SortedMap κ α) (k : κ) : Bool :=
  (m.get? k).isSome

@[simp] theorem get?_empty (k : κ) : (∅ : SortedMap κ α).get? k = none := rfl

@[simp] theorem contains_empty (k : κ) : (∅ : SortedMap κ α).contains k = false := rfl

end Lookup

/-! ## Inserting -/

/-- Puts an entry in its place, replacing the entry that has the same key. -/
def insertEntry (k : κ) (v : α) : List (κ × α) → List (κ × α)
  | [] => [(k, v)]
  | e :: rest =>
    match compare k e.1 with
    | .lt => (k, v) :: e :: rest
    | .eq => (k, v) :: rest
    | .gt => e :: insertEntry k v rest

theorem mem_insertEntry {k : κ} {v : α} {a : κ × α} :
    ∀ {l : List (κ × α)}, a ∈ insertEntry k v l → a = (k, v) ∨ a ∈ l
  | [], h => by simpa [insertEntry] using h
  | e :: rest, h => by
    unfold insertEntry at h
    split at h
    · simpa using h
    · rcases List.mem_cons.1 h with h | h
      · exact .inl h
      · exact .inr (List.mem_cons_of_mem _ h)
    · rcases List.mem_cons.1 h with h | h
      · exact .inr (by simp [h])
      · exact (mem_insertEntry h).imp_right (List.mem_cons_of_mem _)

section Insert

variable [Std.TransOrd κ] [Std.LawfulEqOrd κ]

theorem ascending_insertEntry (k : κ) (v : α) {l : List (κ × α)}
    (h : l.Pairwise fun a b => compare a.1 b.1 = .lt) :
    (insertEntry k v l).Pairwise fun a b => compare a.1 b.1 = .lt := by
  induction l with
  | nil => simp [insertEntry]
  | cons e rest ih =>
    have hr := List.pairwise_cons.1 h
    unfold insertEntry
    split
    · next hlt =>
      refine List.pairwise_cons.2 ⟨fun b hb => ?_, h⟩
      rcases List.mem_cons.1 hb with rfl | hb
      · exact hlt
      · exact Std.TransCmp.lt_trans hlt (hr.1 b hb)
    · next heq =>
      have hk : k = e.1 := Std.LawfulEqCmp.eq_of_compare heq
      exact List.pairwise_cons.2 ⟨fun b hb => hk ▸ hr.1 b hb, hr.2⟩
    · next hgt =>
      refine List.pairwise_cons.2 ⟨fun b hb => ?_, ih hr.2⟩
      rcases mem_insertEntry hb with rfl | hb
      · exact Std.OrientedCmp.lt_of_gt hgt
      · exact hr.1 b hb

/-- The map with `k` bound to `v`, whatever it was bound to before. -/
def insert (m : SortedMap κ α) (k : κ) (v : α) : SortedMap κ α :=
  ⟨insertEntry k v m.entries, ascending_insertEntry k v m.ascending⟩

/-- The map with `k` bound to `v` unless it was bound before. -/
def insertIfNew [DecidableEq κ] (m : SortedMap κ α) (k : κ) (v : α) : SortedMap κ α :=
  if m.contains k then m else m.insert k v

/-- The map of a list of entries, in which a later entry wins. -/
def ofList (l : List (κ × α)) : SortedMap κ α :=
  l.foldl (fun m e => m.insert e.1 e.2) empty

/-- Both maps together; where both bind a key, the second wins. -/
def union (m n : SortedMap κ α) : SortedMap κ α :=
  n.entries.foldl (fun m e => m.insert e.1 e.2) m

end Insert

/-! ## Lookups of what was inserted -/

section Laws

variable [DecidableEq κ]

theorem lookup_insertEntry_self [Std.ReflOrd κ] (k : κ) (v : α) (l : List (κ × α)) :
    (insertEntry k v l).lookup k = some v := by
  induction l with
  | nil => simp [insertEntry]
  | cons e rest ih =>
    obtain ⟨k₀, v₀⟩ := e
    unfold insertEntry
    split
    · simp
    · simp
    · next hgt =>
      have hne : (k == k₀) = false := by
        simp only [beq_eq_false_iff_ne]
        rintro rfl
        simp at hgt
      simp [List.lookup_cons, hne, ih]

theorem lookup_insertEntry_of_ne [Std.LawfulEqOrd κ] {k k' : κ} (h : k' ≠ k) (v : α)
    (l : List (κ × α)) : (insertEntry k v l).lookup k' = l.lookup k' := by
  have hb : (k' == k) = false := by simpa using h
  induction l with
  | nil => simp [insertEntry, List.lookup_cons, hb]
  | cons e rest ih =>
    obtain ⟨k₀, v₀⟩ := e
    unfold insertEntry
    split
    · simp [List.lookup_cons, hb]
    · next heq =>
      have hk : k = k₀ := Std.LawfulEqCmp.eq_of_compare heq
      have hb' : (k' == k₀) = false := hk ▸ hb
      simp [List.lookup_cons, hb, hb']
    · simp [List.lookup_cons, ih]

variable [Std.TransOrd κ] [Std.LawfulEqOrd κ]

theorem get?_insert (m : SortedMap κ α) (k k' : κ) (v : α) :
    (m.insert k v).get? k' = if k' = k then some v else m.get? k' := by
  split
  · next h => exact h ▸ lookup_insertEntry_self k' v m.entries
  · next h => exact lookup_insertEntry_of_ne h v m.entries

@[simp] theorem get?_insert_self (m : SortedMap κ α) (k : κ) (v : α) :
    (m.insert k v).get? k = some v := by
  simp [get?_insert]

@[simp] theorem contains_insert (m : SortedMap κ α) (k k' : κ) (v : α) :
    (m.insert k v).contains k' = (decide (k = k') || m.contains k') := by
  simp only [contains, get?_insert, eq_comm (a := k')]
  split <;> simp_all

@[simp] theorem contains_insertIfNew (m : SortedMap κ α) (k k' : κ) (v : α) :
    (m.insertIfNew k v).contains k' = (decide (k = k') || m.contains k') := by
  unfold insertIfNew
  split
  · next h =>
    by_cases hk : k = k'
    · simpa [← hk] using h
    · simp [hk]
  · exact contains_insert m k k' v

theorem get?_insertIfNew (m : SortedMap κ α) (k k' : κ) (v : α) :
    (m.insertIfNew k v).get? k' = (m.get? k').or (if k' = k then some v else none) := by
  unfold insertIfNew
  split
  · next h =>
    split
    · next hk =>
      obtain ⟨v', hv⟩ := Option.isSome_iff_exists.1 h
      rw [hk, hv, Option.some_or]
    · rw [Option.or_none]
  · next h =>
    rw [get?_insert]
    split
    · next hk =>
      have hnone : m.get? k' = none := by simpa [contains, hk] using h
      rw [hnone, Option.none_or]
    · rw [Option.or_none]

omit [Std.LawfulEqOrd κ] in
theorem mem_entries_iff {m : SortedMap κ α} {k : κ} {v : α} :
    (k, v) ∈ m.entries ↔ m.get? k = some v := by
  obtain ⟨l, hl⟩ := m
  simp only [get?]
  induction l with
  | nil => simp
  | cons e rest ih =>
    obtain ⟨k₀, v₀⟩ := e
    have hr := List.pairwise_cons.1 hl
    by_cases hk : k = k₀
    · subst hk
      have : (k, v) ∉ rest := fun h => by simpa using hr.1 _ h
      simp [this, eq_comm]
    · have hb : (k == k₀) = false := by simpa using hk
      simp [List.lookup_cons, hb, hk, ih hr.2]

omit [Std.LawfulEqOrd κ] in
theorem get?_filter (m : SortedMap κ α) (p : κ → α → Bool) (k : κ) :
    (m.filter p).get? k = (m.get? k).filter (p k) := by
  refine Option.ext fun v => ?_
  rw [Option.filter_eq_some_iff, ← mem_entries_iff, ← mem_entries_iff]
  exact List.mem_filter

omit [DecidableEq κ] [Std.LawfulEqOrd κ] in
theorem nodup_keys (m : SortedMap κ α) : m.keys.Nodup := by
  refine List.pairwise_map.2 (m.ascending.imp ?_)
  intro a b hlt heq
  rw [heq] at hlt
  simp at hlt

omit [DecidableEq κ] [Std.TransOrd κ] [Std.LawfulEqOrd κ] in
theorem keys_ascending (m : NameMap α) : m.keys.Pairwise (· < ·) :=
  List.pairwise_map.2 (m.ascending.imp compareOfLessAndEq_eq_lt.1)

/-- Lookups determine the map. -/
theorem ext_get? {m n : SortedMap κ α} (h : ∀ k, m.get? k = n.get? k) : m = n := by
  obtain ⟨l, hl⟩ := m
  obtain ⟨r, hr⟩ := n
  have hmem : ∀ k v, (k, v) ∈ l ↔ (k, v) ∈ r := fun k v => by
    have h₁ := @mem_entries_iff _ _ _ _ _ ⟨l, hl⟩ k v
    have h₂ := @mem_entries_iff _ _ _ _ _ ⟨r, hr⟩ k v
    rw [h k] at h₁
    exact h₁.trans h₂.symm
  have : l = r := by
    clear h
    induction l generalizing r with
    | nil =>
      cases r with
      | nil => rfl
      | cons e _ => exact absurd ((hmem e.1 e.2).2 (by simp)) (by simp)
    | cons a l ih =>
      cases r with
      | nil => exact absurd ((hmem a.1 a.2).1 (by simp)) (by simp)
      | cons b r =>
        have ha := List.pairwise_cons.1 hl
        have hb := List.pairwise_cons.1 hr
        have hab : a = b := by
          rcases List.mem_cons.1 ((hmem a.1 a.2).1 (by simp)) with h | h
          · exact h
          rcases List.mem_cons.1 ((hmem b.1 b.2).2 (by simp)) with h' | h'
          · exact h'.symm
          have := Std.TransCmp.lt_trans (hb.1 _ h) (ha.1 _ h')
          simp at this
        subst hab
        refine congrArg _ (ih ha.2 r hb.2 fun k v => ?_)
        have := hmem k v
        simp only [List.mem_cons] at this
        constructor
        · intro hx
          rcases this.1 (.inr hx) with h | h
          · have := ha.1 _ hx
            rw [h] at this
            simp at this
          · exact h
        · intro hx
          rcases this.2 (.inr hx) with h | h
          · have := hb.1 _ hx
            rw [h] at this
            simp at this
          · exact h
  subst this
  rfl

/-! ## Maps of lists -/

variable {l : List (κ × α)} {k : κ} {v : α}

/-- Of the entries with one key the last one counts. -/
theorem get?_ofList (l : List (κ × α)) (k : κ) : (ofList l).get? k = l.reverse.lookup k := by
  have hfold : ∀ m : SortedMap κ α, (l.foldl (fun m e => m.insert e.1 e.2) m).get? k =
      (l.reverse.lookup k).or (m.get? k) := by
    induction l with
    | nil => simp
    | cons e l ih =>
      intro m
      obtain ⟨k₀, v₀⟩ := e
      rw [List.foldl_cons, ih, get?_insert, List.reverse_cons, List.lookup_append, Option.or_assoc]
      by_cases hk : k = k₀
      · simp [hk]
      · have hb : (k == k₀) = false := by simpa using hk
        simp [List.lookup_cons, hk, hb]
  exact (hfold empty).trans Option.or_none

theorem get?_ofList_eq_some_iff (h : (l.map (·.1)).Nodup) :
    (ofList l).get? k = some v ↔ (k, v) ∈ l := by
  rw [get?_ofList, List.lookup_eq_some_iff]
  constructor
  · rintro ⟨before, after, hl, -⟩
    rw [← List.mem_reverse, hl]
    simp
  · intro hmem
    obtain ⟨before, after, hl⟩ := List.append_of_mem (List.mem_reverse.2 hmem)
    refine ⟨before, after, hl, fun e he => ?_⟩
    have hkeys : (l.reverse.map (·.1)).Nodup := by
      rw [List.map_reverse]
      exact List.pairwise_reverse.2 (h.imp Ne.symm)
    rw [hl, List.map_append, List.nodup_append] at hkeys
    have hne := hkeys.2.2 e.1 (List.mem_map_of_mem he) k (by simp)
    simpa using hne.symm

theorem isEmpty_ofList (l : List (κ × α)) : (ofList l).isEmpty = l.isEmpty := by
  cases l with
  | nil => rfl
  | cons e l =>
    -- The first key is bound, if only by a later entry.
    have hbound : ((ofList (e :: l)).get? e.1).isSome := by
      rw [get?_ofList, List.reverse_cons, List.lookup_append]
      simp
    cases hentries : ofList (e :: l) with
    | mk entries _ =>
      rw [hentries] at hbound
      cases entries with
      | nil => cases hbound
      | cons e' entries => rfl

/-- A list in ascending order of its keys is the entries of its map. -/
theorem ofList_eq {l : List (κ × α)} (h : l.Pairwise fun a b => compare a.1 b.1 = .lt) :
    ofList l = ⟨l, h⟩ := by
  refine ext_get? fun k => Option.ext fun v => ?_
  rw [get?_ofList_eq_some_iff (nodup_keys ⟨l, h⟩), ← mem_entries_iff]

end Laws

end SortedMap

end Stevedore
