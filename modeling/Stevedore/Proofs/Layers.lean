import Mathlib.Data.List.Perm.Basic
import Stevedore.Graph.Teardown
import Stevedore.Proofs.Planning

/-!
The order in which containers are taken down.

`Earlier groups a b` says that `a` stands in a group before every group in which `b` is looked for.
Peeling a graph without circles from the top uses up all its containers (`perm_flatten_peel`), and
whoever waits for another container lands in an earlier layer (`earlier_peel`): while one of the two
is left, the other is not free. Along a chain of dependents this holds of its ends too, because no
container is in two layers. Leaving out the containers that are not wanted changes none of this, so
a gap in the chain does no harm (`earlier_teardownOrder`).
-/

namespace Stevedore

open Relation

/-- Whether `a` stands in an earlier group than `b`. -/
def Earlier {α : Type} (groups : List (List α)) (a b : α) : Prop :=
  ∃ before after, groups = before ++ after ∧ a ∈ before.flatten ∧ b ∈ after.flatten

namespace Earlier

variable {α β : Type} {groups others : List (List α)} {group : List α} {a b c : α}

theorem append (ha : a ∈ groups.flatten) (hb : b ∈ others.flatten) :
    Earlier (groups ++ others) a b :=
  ⟨groups, others, rfl, ha, hb⟩

theorem append_right (h : Earlier groups a b) : Earlier (groups ++ others) a b := by
  obtain ⟨before, after, rfl, ha, hb⟩ := h
  refine ⟨before, after ++ others, by rw [List.append_assoc], ha, ?_⟩
  rw [List.flatten_append]
  exact List.mem_append_left _ hb

theorem cons (h : Earlier groups a b) : Earlier (group :: groups) a b := by
  obtain ⟨before, after, rfl, ha, hb⟩ := h
  refine ⟨group :: before, after, rfl, ?_, hb⟩
  rw [List.flatten_cons]
  exact List.mem_append_right _ ha

/-- What is made of the groups one by one keeps their order. -/
theorem flatMap {f : List α → List (List β)} {x y : β} (h : Earlier groups a b)
    (hx : ∀ group, a ∈ group → x ∈ (f group).flatten)
    (hy : ∀ group, b ∈ group → y ∈ (f group).flatten) : Earlier (groups.flatMap f) x y := by
  have hmem : ∀ {l : List (List α)} {c : α} {z : β}, c ∈ l.flatten →
      (∀ group, c ∈ group → z ∈ (f group).flatten) → z ∈ (l.flatMap f).flatten := by
    intro l c z hc hz
    obtain ⟨group, hgroup, hc⟩ := List.mem_flatten.1 hc
    obtain ⟨part, hpart, hz⟩ := List.mem_flatten.1 (hz group hc)
    exact List.mem_flatten.2 ⟨part, List.mem_flatMap.2 ⟨group, hgroup, hpart⟩, hz⟩
  obtain ⟨before, after, rfl, ha, hb⟩ := h
  rw [List.flatMap_append]
  exact append (hmem ha hx) (hmem hb hy)

theorem pair {xs ys : List α} (ha : a ∈ xs) (hb : b ∈ ys) : Earlier [xs, ys] a b :=
  ⟨[xs], [ys], rfl, by simpa using ha, by simpa using hb⟩

/-- What is earlier in the part that is made of one thing is earlier in the whole. -/
theorem of_mem_flatMap {γ : Type} {f : γ → List (List α)} {whole : List γ} {part : γ}
    (hpart : part ∈ whole) (h : Earlier (f part) a b) : Earlier (whole.flatMap f) a b := by
  obtain ⟨l, r, rfl⟩ := List.append_of_mem hpart
  obtain ⟨before, after, heq, ha, hb⟩ := h
  refine ⟨l.flatMap f ++ before, after ++ r.flatMap f, ?_, ?_, ?_⟩
  · rw [List.flatMap_append, List.flatMap_cons, heq, List.append_assoc, List.append_assoc]
  · rw [List.flatten_append]
    exact List.mem_append_right _ ha
  · rw [List.flatten_append]
    exact List.mem_append_left _ hb

/-- Groups without members do not count. -/
theorem filter_isEmpty (h : Earlier groups a b) : Earlier (groups.filter (!·.isEmpty)) a b := by
  obtain ⟨before, after, rfl, ha, hb⟩ := h
  rw [List.filter_append]
  refine append ?_ ?_
  · rwa [List.flatten_filter_not_isEmpty]
  · rwa [List.flatten_filter_not_isEmpty]

/-- Where nothing stands twice, being earlier is transitive. -/
theorem trans (hn : groups.flatten.Nodup) (h : Earlier groups a b) (h' : Earlier groups b c) :
    Earlier groups a c := by
  obtain ⟨before, after, rfl, ha, hb⟩ := h
  obtain ⟨before', after', heq, hb', hc⟩ := h'
  rcases List.append_eq_append_iff.1 heq with ⟨l, rfl, rfl⟩ | ⟨l, rfl, rfl⟩
  · refine ⟨before ++ l, after', by rw [List.append_assoc], ?_, hc⟩
    rw [List.flatten_append]
    exact List.mem_append_left _ ha
  · -- Otherwise `b` would stand on both sides of the first cut.
    rw [List.flatten_append, List.nodup_append] at hn
    refine absurd rfl (hn.2.2 b ?_ b hb)
    rw [List.flatten_append]
    exact List.mem_append_left _ hb'

end Earlier

namespace Graph

variable {g : Graph} {rounds : Nat} {remaining : List String} {a b : String}

theorem isFree_iff {name : String} :
    g.isFree remaining name = true ↔ ∀ other ∈ remaining, ¬ g.WaitsFor other name := by
  simp [isFree, SortedSet.contains, WaitsFor]

/-- Where there are no circles, somebody is free. -/
theorem exists_isFree {rank : String → Nat} (hrank : ∀ a b, g.WaitsFor a b → rank b < rank a)
    (hne : remaining ≠ []) : ∃ name ∈ remaining, g.isFree remaining name = true := by
  -- Whoever has the highest rank.
  suffices h : ∀ bound, (∀ name ∈ remaining, rank name < bound) →
      ∃ name ∈ remaining, g.isFree remaining name = true by
    obtain ⟨bound, hbound⟩ := exists_bound rank remaining
    exact h bound hbound
  intro bound
  induction bound with
  | zero =>
    intro hbound
    obtain ⟨name, hname⟩ := List.exists_mem_of_ne_nil _ hne
    exact absurd (hbound name hname) (Nat.not_lt_zero _)
  | succ bound ih =>
    intro hbound
    by_cases htop : ∃ name ∈ remaining, rank name = bound
    · obtain ⟨name, hname, rfl⟩ := htop
      refine ⟨name, hname, isFree_iff.2 ?_⟩
      intro other ho hwaits
      have hlt := hrank other name hwaits
      have hle := hbound other ho
      omega
    · refine ih ?_
      intro name hname
      have hlt := hbound name hname
      have hne : rank name ≠ bound := fun heq => htop ⟨name, hname, heq⟩
      omega

theorem length_filter_not_isFree_lt (h : remaining.filter (g.isFree remaining) ≠ []) :
    (remaining.filter fun name => !g.isFree remaining name).length < remaining.length := by
  have hperm := (List.filter_append_perm (g.isFree remaining) remaining).length_eq
  rw [List.length_append] at hperm
  have hpos := List.length_pos_iff.2 h
  omega

/-- The layers hold everything, each container once. -/
theorem perm_flatten_peel {rank : String → Nat} (hrank : ∀ a b, g.WaitsFor a b → rank b < rank a)
    (hlen : remaining.length ≤ rounds) : (g.peel rounds remaining).flatten.Perm remaining := by
  induction rounds generalizing remaining with
  | zero =>
    obtain rfl := List.eq_nil_of_length_eq_zero (Nat.le_zero.1 hlen)
    exact .refl _
  | succ rounds ih =>
    unfold peel
    dsimp only
    split
    · next hnone =>
      by_contra hne
      have hsome : remaining ≠ [] := by
        rintro rfl
        exact hne (.refl _)
      obtain ⟨name, hname, hfree⟩ := exists_isFree hrank hsome
      have hmem := List.mem_filter.2 ⟨hname, hfree⟩
      rw [List.isEmpty_iff.1 hnone] at hmem
      simp at hmem
    · next hsome =>
      have hne : remaining.filter (g.isFree remaining) ≠ [] :=
        fun hnil => hsome (List.isEmpty_iff.2 hnil)
      have hlt := length_filter_not_isFree_lt hne
      rw [List.flatten_cons]
      exact ((ih (by omega)).append_left _).trans (List.filter_append_perm _ _)

/-- Whoever waits for another container is in an earlier layer. -/
theorem earlier_peel {rank : String → Nat} (hrank : ∀ a b, g.WaitsFor a b → rank b < rank a)
    (hlen : remaining.length ≤ rounds) (ha : a ∈ remaining) (hb : b ∈ remaining)
    (hab : g.WaitsFor a b) : Earlier (g.peel rounds remaining) a b := by
  have hbound : ¬ g.isFree remaining b = true := fun hfree => isFree_iff.1 hfree a ha hab
  induction rounds generalizing remaining with
  | zero =>
    obtain rfl := List.eq_nil_of_length_eq_zero (Nat.le_zero.1 hlen)
    simp at ha
  | succ rounds ih =>
    unfold peel
    dsimp only
    split
    · next hnone =>
      obtain ⟨name, hname, hfree⟩ := exists_isFree hrank (List.ne_nil_of_mem ha)
      have hmem := List.mem_filter.2 ⟨hname, hfree⟩
      rw [List.isEmpty_iff.1 hnone] at hmem
      simp at hmem
    · next hsome =>
      have hne : remaining.filter (g.isFree remaining) ≠ [] :=
        fun hnil => hsome (List.isEmpty_iff.2 hnil)
      have hlt := length_filter_not_isFree_lt hne
      have hb' : b ∈ remaining.filter fun name => !g.isFree remaining name := by
        simpa [hb] using hbound
      by_cases hfree : g.isFree remaining a = true
      · have hrest := (perm_flatten_peel (g := g) hrank (Nat.le_of_lt_succ
          (Nat.lt_of_lt_of_le hlt hlen))).mem_iff.2 hb'
        refine ⟨[_], _, rfl, ?_, hrest⟩
        simpa using ⟨ha, hfree⟩
      · have ha' : a ∈ remaining.filter fun name => !g.isFree remaining name := by
          simpa [ha] using hfree
        refine (ih (by omega) ha' hb' fun hf => ?_).cons
        exact isFree_iff.1 hf a ha' hab

/-! ## The layers of a well-formed graph -/

theorem perm_flatten_layers (hg : g.WellFormed) : g.layers.flatten.Perm g.names := by
  obtain ⟨rank, hrank⟩ := hg.ranked
  exact perm_flatten_peel hrank (Nat.le_of_eq (List.length_map _))

theorem nodup_flatten_layers (hg : g.WellFormed) : g.layers.flatten.Nodup :=
  (perm_flatten_layers hg).nodup_iff.2 g.nodes.nodup_keys

/-- Along a chain of dependents the layers go downwards. -/
theorem earlier_layers (hg : g.WellFormed) (ha : a ∈ g.names) (hab : TransGen g.WaitsFor a b) :
    Earlier g.layers a b := by
  obtain ⟨rank, hrank⟩ := hg.ranked
  have hlen : g.names.length ≤ g.nodes.size := Nat.le_of_eq (List.length_map _)
  have hone : ∀ x y, x ∈ g.names → g.WaitsFor x y → Earlier g.layers x y := by
    intro x y hx hxy
    exact earlier_peel hrank hlen hx (mem_names.2 (hg.closed x y hxy)) hxy
  induction hab with
  | single hab => exact hone _ _ ha hab
  | @tail c d _ hcd ih =>
    have hc : c ∈ g.names := by
      obtain ⟨before, after, hl, -, hc⟩ := ih
      refine (perm_flatten_layers hg).mem_iff.1 ?_
      rw [hl, List.flatten_append]
      exact List.mem_append_right _ hc
    exact ih.trans (nodup_flatten_layers hg) (hone c d hc hcd)

/-! ## The containers that are wanted -/

/-- Everybody who is wanted is taken down once. -/
theorem flatten_teardownOrder (wanted : NameSet) :
    (g.teardownOrder wanted).flatten = g.layers.flatten.filter wanted.contains := by
  rw [teardownOrder, List.flatten_filter_not_isEmpty, List.filter_flatten]

/-- Dependents are taken down before what they depend on, also where somebody between them is not
wanted. -/
theorem earlier_teardownOrder (hg : g.WellFormed) {wanted : NameSet} (ha : a ∈ g.names)
    (hab : TransGen g.WaitsFor a b) (hwa : a ∈ wanted) (hwb : b ∈ wanted) :
    Earlier (g.teardownOrder wanted) a b := by
  have h := (earlier_layers hg ha hab).flatMap
    (f := fun layer => [layer.filter fun name => wanted.contains name]) (x := a) (y := b)
    (by simpa [SortedSet.contains] using fun _ h => ⟨h, hwa⟩)
    (by simpa [SortedSet.contains] using fun _ h => ⟨h, hwb⟩)
  rw [← List.map_eq_flatMap] at h
  exact h.filter_isEmpty

end Graph

end Stevedore
