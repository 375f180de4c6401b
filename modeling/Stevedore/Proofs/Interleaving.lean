import Mathlib.Data.List.Perm.Basic

/-!
Lists that are worked off side by side.

An interleaving of some lists takes whatever comes next in one of them, until all are used up. So
the elements of each list keep their order, and nothing is said about the order between two lists.

Whoever picks something from an interleaving picks the same from every other one if elements of two
lists look the same to him (`Interleaves.filterMap_eq`). Mostly this is so because only one of the
lists has anything to pick. Whoever only takes the first thing that he finds takes the same if
the first ones of all lists look the same (`Interleaves.findSome?_eq`).
-/

namespace Stevedore

variable {α β : Type} {lists lists' : List (List α)} {merged merged' : List α} {f : α → Option β}

/-- Whether a list is an interleaving of some lists. -/
inductive Interleaves : List (List α) → List α → Prop
  | done {lists : List (List α)} (empty : ∀ l ∈ lists, l = []) : Interleaves lists []
  | take {before after : List (List α)} {l merged : List α} {a : α}
      (rest : Interleaves (before ++ l :: after) merged) :
      Interleaves (before ++ (a :: l) :: after) (a :: merged)

theorem append_comm_of_eq {l l' : List β} (h : ∀ b ∈ l, ∀ b' ∈ l', b = b') :
    l ++ l' = l' ++ l := by
  induction l' with
  | nil => simp
  | cons b l' ih =>
    have hl : l = List.replicate l.length b :=
      List.eq_replicate_of_mem fun a ha => h a ha b (List.mem_cons_self ..)
    have hmove : l ++ [b] = b :: l := by
      rw [hl, ← List.replicate_succ', List.replicate_succ]
    have hrest := ih fun a ha c hc => h a ha c (List.mem_cons_of_mem _ hc)
    rw [List.append_cons, hmove, List.cons_append, hrest, List.cons_append]

/-- Whether all that is picked from the two lists looks the same. -/
def AgreeOn (f : α → Option β) (l l' : List α) : Prop :=
  ∀ a ∈ l, ∀ a' ∈ l', ∀ b b', f a = some b → f a' = some b' → b = b'

theorem AgreeOn.of_subset {l l' m m' : List α} (h : AgreeOn f l l') (hl : m ⊆ l) (hl' : m' ⊆ l') :
    AgreeOn f m m' :=
  fun a ha a' ha' => h a (hl ha) a' (hl' ha')

theorem AgreeOn.filterMap_comm {l l' : List α} (h : AgreeOn f l l') :
    l.filterMap f ++ l'.filterMap f = l'.filterMap f ++ l.filterMap f := by
  refine append_comm_of_eq fun b hb b' hb' => ?_
  obtain ⟨a, ha, hb⟩ := List.mem_filterMap.1 hb
  obtain ⟨a', ha', hb'⟩ := List.mem_filterMap.1 hb'
  exact h a ha a' ha' b b' hb hb'

/-! ## Ways to interleave -/

namespace Interleaves

theorem perm (h : Interleaves lists merged) : merged.Perm lists.flatten := by
  induction h with
  | done empty => rw [List.flatten_eq_nil_iff.2 empty]
  | take _ ih =>
    rw [List.flatten_append, List.flatten_cons] at ih ⊢
    exact (ih.cons _).trans List.perm_middle.symm

theorem mem_iff (h : Interleaves lists merged) {a : α} : a ∈ merged ↔ ∃ l ∈ lists, a ∈ l := by
  rw [h.perm.mem_iff, List.mem_flatten]

/-- It does not matter in which order the lists are given. -/
theorem of_perm (h : Interleaves lists merged) (hperm : lists.Perm lists') :
    Interleaves lists' merged := by
  induction h generalizing lists' with
  | done empty => exact .done fun l hl => empty l (hperm.mem_iff.2 hl)
  | @take before after l merged a _ ih =>
    obtain ⟨before', after', rfl⟩ : ∃ before' after', lists' = before' ++ (a :: l) :: after' :=
      List.append_of_mem (hperm.mem_iff.1 (by simp))
    have hothers : (before ++ after).Perm (before' ++ after') :=
      (List.perm_cons _).1 (List.perm_middle.symm.trans (hperm.trans List.perm_middle))
    exact (ih (List.perm_middle.trans ((hothers.cons l).trans List.perm_middle.symm))).take

/-- Lists that are used up make no difference. -/
theorem append_left (hempty : ∀ l ∈ lists', l = []) (h : Interleaves lists merged) :
    Interleaves (lists' ++ lists) merged := by
  induction h with
  | done empty => exact .done (List.forall_mem_append.2 ⟨hempty, empty⟩)
  | take _ ih =>
    rw [← List.append_assoc] at ih ⊢
    exact ih.take

/-- First some lists are worked off, and then others. -/
theorem append (h : Interleaves lists merged) (h' : Interleaves lists' merged') :
    Interleaves (lists ++ lists') (merged ++ merged') := by
  induction h with
  | done empty => exact h'.append_left empty
  | take _ ih =>
    rw [List.append_assoc, List.cons_append] at ih ⊢
    exact ih.take

theorem singleton (l : List α) : Interleaves [l] l := by
  induction l with
  | nil => exact .done (by simp)
  | cons a l ih => exact @take _ [] [] l l a ih

/-- Lists may be worked off one after the other. -/
theorem flatten (lists : List (List α)) : Interleaves lists lists.flatten := by
  induction lists with
  | nil => exact .done (by simp)
  | cons l lists ih => exact (singleton l).append ih

end Interleaves

/-! ## What is picked -/

namespace Interleaves

/-- What is picked from an interleaving is what is picked from the lists one after the other. -/
theorem filterMap_flatten (h : Interleaves lists merged) (hagree : lists.Pairwise (AgreeOn f)) :
    merged.filterMap f = lists.flatten.filterMap f := by
  induction h with
  | done empty => rw [List.flatten_eq_nil_iff.2 empty]
  | @take before after l merged a rest ih =>
    obtain ⟨hbefore, hafter, hcross⟩ := List.pairwise_append.1 hagree
    obtain ⟨hfirst, hafter⟩ := List.pairwise_cons.1 hafter
    have hsub : l ⊆ a :: l := List.subset_cons_self ..
    have hrest : (before ++ l :: after).Pairwise (AgreeOn f) := by
      refine List.pairwise_append.2 ⟨hbefore, List.pairwise_cons.2 ⟨?_, hafter⟩, ?_⟩
      · exact fun l' hl' => (hfirst l' hl').of_subset hsub (List.Subset.refl _)
      · intro l' hl' l'' hl''
        rcases List.mem_cons.1 hl'' with rfl | hl''
        · exact (hcross l' hl' _ (List.mem_cons_self ..)).of_subset (List.Subset.refl _) hsub
        · exact hcross l' hl' l'' (List.mem_cons_of_mem _ hl'')
    have hpassed : AgreeOn f before.flatten [a] := by
      intro c hc c' hc'
      obtain ⟨l', hl', hc⟩ := List.mem_flatten.1 hc
      exact hcross l' hl' _ (List.mem_cons_self ..) c hc c' (by simp [List.mem_singleton.1 hc'])
    have hlists : (before ++ (a :: l) :: after).flatten =
        before.flatten ++ [a] ++ (l ++ after.flatten) := by simp
    have hrests : (before ++ l :: after).flatten = before.flatten ++ (l ++ after.flatten) := by simp
    rw [hlists, List.filterMap_append, List.filterMap_append, hpassed.filterMap_comm,
      List.append_assoc, ← List.filterMap_append, ← hrests, ← ih hrest, ← List.filterMap_append]
    rfl

/-- **Nobody can tell one interleaving from another who sees no difference between elements of two
lists.** -/
theorem filterMap_eq (h : Interleaves lists merged) (h' : Interleaves lists merged')
    (hagree : lists.Pairwise (AgreeOn f)) : merged.filterMap f = merged'.filterMap f := by
  rw [h.filterMap_flatten hagree, h'.filterMap_flatten hagree]

/-- What is found first is what is found first in one of the lists. -/
theorem exists_findSome?_eq {b : β} (h : Interleaves lists merged)
    (hfound : merged.findSome? f = some b) : ∃ l ∈ lists, l.findSome? f = some b := by
  induction h with
  | done => simp at hfound
  | @take before after l merged a _ ih =>
    rw [List.findSome?_cons] at hfound
    cases hhead : f a with
    | some c =>
      rw [hhead] at hfound
      exact ⟨a :: l, by simp, by rw [List.findSome?_cons, hhead]; exact hfound⟩
    | none =>
      rw [hhead] at hfound
      obtain ⟨l', hl', hfound⟩ := ih hfound
      rcases List.mem_append.1 hl' with hl' | hl'
      · exact ⟨l', List.mem_append_left _ hl', hfound⟩
      rcases List.mem_cons.1 hl' with rfl | hl'
      · exact ⟨a :: l', by simp, by rw [List.findSome?_cons, hhead]; exact hfound⟩
      · exact ⟨l', by simp [hl'], hfound⟩

/-- The same is found first in every interleaving if it is the same for all lists. -/
theorem findSome?_eq (h : Interleaves lists merged) (h' : Interleaves lists merged')
    (hagree : ∀ l ∈ lists, ∀ l' ∈ lists, ∀ b b',
      l.findSome? f = some b → l'.findSome? f = some b' → b = b') :
    merged.findSome? f = merged'.findSome? f := by
  have hperm := h.perm.trans h'.perm.symm
  cases hfound : merged.findSome? f with
  | none =>
    refine (List.findSome?_eq_none_iff.2 fun a ha => ?_).symm
    exact List.findSome?_eq_none_iff.1 hfound a (hperm.mem_iff.2 ha)
  | some b =>
    obtain ⟨b', hfound'⟩ : ∃ b', merged'.findSome? f = some b' := by
      obtain ⟨a, ha, hb⟩ := List.exists_of_findSome?_eq_some hfound
      refine Option.isSome_iff_exists.1 (List.findSome?_isSome_iff.2 ⟨a, ?_, ?_⟩)
      · exact hperm.mem_iff.1 ha
      · rw [hb]
        rfl
    obtain ⟨l, hl, hfirst⟩ := h.exists_findSome?_eq hfound
    obtain ⟨l', hl', hfirst'⟩ := h'.exists_findSome?_eq hfound'
    rw [hfound', hagree l hl l' hl' b b' hfirst hfirst']

end Interleaves

end Stevedore
