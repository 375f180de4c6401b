/-!
Finite sets whose members stand in ascending order, so that a set is walked in one order only and
two sets with the same members are equal (`ext_mem`).
-/

namespace Stevedore

/-- A finite set with its members in strictly ascending order. -/
structure SortedSet (κ : Type u) [Ord κ] where
  /-- The members, smallest first. -/
  toList : List κ
  /-- The members ascend strictly. -/
  ascending : toList.Pairwise fun a b => compare a b = .lt
deriving DecidableEq

/-- A set of names, in ascending order of code points. -/
abbrev NameSet := SortedSet String

namespace SortedSet

variable {κ : Type u} [Ord κ]

/-! ## Reading -/

/-- The set without members. -/
def empty : SortedSet κ := ⟨[], .nil⟩

instance : EmptyCollection (SortedSet κ) := ⟨empty⟩
instance : Inhabited (SortedSet κ) := ⟨empty⟩

instance : Membership κ (SortedSet κ) := ⟨fun s k => k ∈ s.toList⟩

theorem mem_def {s : SortedSet κ} {k : κ} : k ∈ s ↔ k ∈ s.toList := Iff.rfl

instance [DecidableEq κ] (s : SortedSet κ) (k : κ) : Decidable (k ∈ s) :=
  inferInstanceAs (Decidable (k ∈ s.toList))

/-- Whether `k` is a member. -/
def contains [DecidableEq κ] (s : SortedSet κ) (k : κ) : Bool := decide (k ∈ s)

/-- Whether there are no members. -/
def isEmpty (s : SortedSet κ) : Bool := s.toList.isEmpty

/-- The number of members. -/
def size (s : SortedSet κ) : Nat := s.toList.length

/-- The members that satisfy `p`. -/
def filter (p : κ → Bool) (s : SortedSet κ) : SortedSet κ :=
  ⟨s.toList.filter p, s.ascending.filter _⟩

@[simp] theorem not_mem_empty (k : κ) : k ∉ (empty : SortedSet κ) := by simp [mem_def, empty]

@[simp] theorem contains_empty [DecidableEq κ] (k : κ) : (∅ : SortedSet κ).contains k = false := rfl

@[simp] theorem mem_filter {p : κ → Bool} {s : SortedSet κ} {k : κ} :
    k ∈ s.filter p ↔ k ∈ s ∧ p k := by simp [mem_def, filter]

/-! ## Inserting -/

/-- Puts a member in its place, unless it is there. -/
def insertMember (k : κ) : List κ → List κ
  | [] => [k]
  | a :: rest =>
    match compare k a with
    | .lt => k :: a :: rest
    | .eq => a :: rest
    | .gt => a :: insertMember k rest

theorem mem_insertMember [Std.LawfulEqOrd κ] {k a : κ} :
    ∀ {l : List κ}, a ∈ insertMember k l ↔ a = k ∨ a ∈ l
  | [] => by simp [insertMember]
  | b :: rest => by
    unfold insertMember
    split
    · simp
    · next heq =>
      have hk : k = b := Std.LawfulEqCmp.eq_of_compare heq
      simp [hk]
    · simp [mem_insertMember (l := rest), or_left_comm]

variable [Std.TransOrd κ] [Std.LawfulEqOrd κ]

theorem ascending_insertMember (k : κ) {l : List κ}
    (h : l.Pairwise fun a b => compare a b = .lt) :
    (insertMember k l).Pairwise fun a b => compare a b = .lt := by
  induction l with
  | nil => simp [insertMember]
  | cons a rest ih =>
    have hr := List.pairwise_cons.1 h
    unfold insertMember
    split
    · next hlt =>
      refine List.pairwise_cons.2 ⟨fun b hb => ?_, h⟩
      rcases List.mem_cons.1 hb with rfl | hb
      · exact hlt
      · exact Std.TransCmp.lt_trans hlt (hr.1 b hb)
    · exact h
    · next hgt =>
      refine List.pairwise_cons.2 ⟨fun b hb => ?_, ih hr.2⟩
      rcases mem_insertMember.1 hb with rfl | hb
      · exact Std.OrientedCmp.lt_of_gt hgt
      · exact hr.1 b hb

/-- The set with `k` as a member. -/
def insert (s : SortedSet κ) (k : κ) : SortedSet κ :=
  ⟨insertMember k s.toList, ascending_insertMember k s.ascending⟩

/-- The set of the elements of a list. -/
def ofList (l : List κ) : SortedSet κ := l.foldl insert empty

/-- The members of either set. -/
def union (s t : SortedSet κ) : SortedSet κ := t.toList.foldl insert s

@[simp] theorem mem_insert {s : SortedSet κ} {k a : κ} : a ∈ s.insert k ↔ a = k ∨ a ∈ s :=
  mem_insertMember

@[simp] theorem contains_insert [DecidableEq κ] (s : SortedSet κ) (k a : κ) :
    (s.insert k).contains a = (decide (k = a) || s.contains a) := by
  simp [contains, eq_comm (a := a)]

theorem mem_foldl_insert {a : κ} :
    ∀ (l : List κ) (s : SortedSet κ), a ∈ l.foldl insert s ↔ a ∈ s ∨ a ∈ l
  | [], s => by simp
  | b :: l, s => by
    simp only [List.foldl_cons, mem_foldl_insert l, mem_insert, List.mem_cons]
    grind

@[simp] theorem mem_ofList {l : List κ} {a : κ} : a ∈ ofList l ↔ a ∈ l := by
  simp [ofList, mem_foldl_insert]

@[simp] theorem mem_union {s t : SortedSet κ} {a : κ} : a ∈ s.union t ↔ a ∈ s ∨ a ∈ t :=
  mem_foldl_insert t.toList s

omit [Std.LawfulEqOrd κ] in
theorem nodup_toList (s : SortedSet κ) : s.toList.Nodup := by
  refine s.ascending.imp ?_
  intro a b hlt heq
  rw [heq] at hlt
  simp at hlt

omit [Std.LawfulEqOrd κ] in
/-- Membership determines the set. -/
theorem ext_mem {s t : SortedSet κ} (h : ∀ k, k ∈ s ↔ k ∈ t) : s = t := by
  obtain ⟨l, hl⟩ := s
  obtain ⟨r, hr⟩ := t
  have hmem : ∀ k, k ∈ l ↔ k ∈ r := h
  have : l = r := by
    clear h
    induction l generalizing r with
    | nil =>
      cases r with
      | nil => rfl
      | cons b _ => exact absurd ((hmem b).2 (by simp)) (by simp)
    | cons a l ih =>
      cases r with
      | nil => exact absurd ((hmem a).1 (by simp)) (by simp)
      | cons b r =>
        have ha := List.pairwise_cons.1 hl
        have hb := List.pairwise_cons.1 hr
        have hab : a = b := by
          rcases List.mem_cons.1 ((hmem a).1 (by simp)) with h | h
          · exact h
          rcases List.mem_cons.1 ((hmem b).2 (by simp)) with h' | h'
          · exact h'.symm
          have := Std.TransCmp.lt_trans (hb.1 _ h) (ha.1 _ h')
          simp at this
        subst hab
        refine congrArg _ (ih ha.2 r hb.2 fun k => ⟨fun hx => ?_, fun hx => ?_⟩)
        · rcases List.mem_cons.1 ((hmem k).1 (List.mem_cons_of_mem _ hx)) with h | h
          · have := ha.1 _ hx
            rw [h] at this
            simp at this
          · exact h
        · rcases List.mem_cons.1 ((hmem k).2 (List.mem_cons_of_mem _ hx)) with h | h
          · have := hb.1 _ hx
            rw [h] at this
            simp at this
          · exact h
  subst this
  rfl

end SortedSet

end Stevedore
