import Mathlib.Data.List.Chain
import Stevedore.Proofs.Dependents
import Stevedore.Proofs.Layers

/-!
Which containers are taken down together.

The level of a container is the length of the longest chain of dependents above it (`HasLevel`), and
the groups in which containers are taken down are the levels (`inLevels_teardownOrder`).

The levels can also be found in one pass that comes to each container after its dependents
(`levelsAlong`). What is known of the dependents then decides on the container
(`hasLevel_levelBelow`), so such a pass finds the level of everybody, whatever order it takes among
those that the graph leaves open (`IsTopological.measures`). When the graph is peeled from the top,
what is left after some layers are those who are on no higher level, and free among them are those
on just this level (`Measures.isFree_iff`). So both ways put the same containers together, in the
same order (`Measures.teardownOrder_eq`, `groupsByLevel_eq`).
-/

namespace Stevedore

/-- A map with small numbers for keys is walked by counting. -/
theorem SortedMap.values_eq {α : Type} {m : SortedMap Nat α} {bound : Nat}
    (h : ∀ n v, m.get? n = some v → n < bound) :
    m.values = (List.range' 0 bound).filterMap m.get? := by
  have hascending : ((List.range' 0 bound).filterMap fun n => (m.get? n).map (n, ·)).Pairwise
      fun a b => compare a.1 b.1 = .lt := by
    refine List.Pairwise.filterMap _ ?_ (List.pairwise_lt_range' 1)
    intro n n' hlt e he e' he'
    obtain ⟨_, -, rfl⟩ := Option.map_eq_some_iff.1 he
    obtain ⟨_, -, rfl⟩ := Option.map_eq_some_iff.1 he'
    exact Nat.compare_eq_lt.2 hlt
  have hentries : m = ⟨_, hascending⟩ := by
    refine ext_get? fun n => Option.ext fun v => ?_
    rw [← mem_entries_iff, ← mem_entries_iff, List.mem_filterMap]
    simp only [List.mem_range'_1, Option.map_eq_some_iff, Prod.mk.injEq, Nat.zero_add]
    rw [mem_entries_iff]
    constructor
    · intro hv
      exact ⟨n, ⟨Nat.zero_le n, h n v hv⟩, v, hv, rfl, rfl⟩
    · rintro ⟨_, -, _, hv, rfl, rfl⟩
      exact hv
  conv_lhs => rw [hentries]
  rw [values, List.map_filterMap]
  simp [Function.comp_def]

namespace Graph

open Relation

variable {g : Graph} {a b name : String} {chain order : List String} {levels : NameMap Nat}
  {m n : Nat}

/-- Whether these containers stand above `name` in a chain: each waits for the next one, and the
last one for `name`. -/
def StandsAbove (g : Graph) (chain : List String) (name : String) : Prop :=
  (chain ++ [name]).IsChain g.WaitsFor

/-- Whether the longest chain of dependents above `name` has this length. -/
structure HasLevel (g : Graph) (name : String) (level : Nat) : Prop where
  exists_chain : ∃ chain, g.StandsAbove chain name ∧ chain.length = level
  length_le : ∀ chain, g.StandsAbove chain name → chain.length ≤ level

/-- Whether these are the containers of the graph, each of them after all that wait for it. -/
structure IsTopological (g : Graph) (order : List String) : Prop where
  perm : order.Perm g.names
  after : ∀ before name later, order = before ++ name :: later →
    ∀ d, g.WaitsFor d name → d ∈ before

/-- One level more than the lowest of these dependents, as far as their levels are known. -/
def levelBelow (levels : NameMap Nat) (dependents : NameSet) : Nat :=
  ((dependents.toList.filterMap levels.get?).map (· + 1)).max?.getD 0

/-- The levels that are found in one pass over the containers. -/
def levelsAlong (g : Graph) (order : List String) : NameMap Nat :=
  order.foldl (fun levels name => levels.insert name (levelBelow levels (g.dependents name))) ∅

/-- Puts a name behind those of its level, if it has one. -/
def joinLevel (levels : NameMap Nat) (groups : SortedMap Nat (List String)) (name : String) :
    SortedMap Nat (List String) :=
  match levels.get? name with
  | some level => groups.insert level ((groups.get? level).getD [] ++ [name])
  | none => groups

/-- The names that have a level, level by level. -/
def groupsByLevel (levels : NameMap Nat) (names : NameSet) : List (List String) :=
  (names.toList.foldl (joinLevel levels) ∅).values

/-! ## Chains of dependents -/

theorem standsAbove_nil (g : Graph) (name : String) : g.StandsAbove [] name := .singleton name

theorem standsAbove_concat_iff :
    g.StandsAbove (chain ++ [a]) b ↔ g.StandsAbove chain a ∧ g.WaitsFor a b := by
  unfold StandsAbove
  rw [List.append_assoc, List.singleton_append, List.isChain_append_cons_cons]
  simp

namespace HasLevel

theorem unique (hm : g.HasLevel name m) (hn : g.HasLevel name n) : m = n := by
  obtain ⟨chain, hchain, rfl⟩ := hm.exists_chain
  obtain ⟨chain', hchain', rfl⟩ := hn.exists_chain
  exact Nat.le_antisymm (hn.length_le chain hchain) (hm.length_le chain' hchain')

/-- Whoever waits for somebody stands on a higher level. -/
theorem lt (hm : g.HasLevel a m) (hn : g.HasLevel b n) (hab : g.WaitsFor a b) : m < n := by
  obtain ⟨chain, hchain, rfl⟩ := hm.exists_chain
  have hle := hn.length_le _ (standsAbove_concat_iff.2 ⟨hchain, hab⟩)
  rwa [List.length_append, List.length_singleton] at hle

/-- Below the first level, somebody stands just one level higher. -/
theorem exists_waitsFor (h : g.HasLevel b (n + 1)) : ∃ a, g.WaitsFor a b ∧ g.HasLevel a n := by
  obtain ⟨chain, hchain, hlength⟩ := h.exists_chain
  rcases List.eq_nil_or_concat chain with rfl | ⟨chain, a, rfl⟩
  · cases hlength
  rw [List.concat_eq_append] at hchain hlength
  obtain ⟨hchain, hab⟩ := standsAbove_concat_iff.1 hchain
  refine ⟨a, hab, ⟨chain, hchain, by simpa using hlength⟩, ?_⟩
  intro other ho
  have hle := h.length_le _ (standsAbove_concat_iff.2 ⟨ho, hab⟩)
  rw [List.length_append, List.length_singleton] at hle
  omega

end HasLevel

/-! ## The levels of one pass -/

theorem lt_levelBelow {dependents : NameSet} (ha : a ∈ dependents) (hn : levels.get? a = some n) :
    n < levelBelow levels dependents := by
  refine List.le_max?_getD_of_mem (List.mem_map.2 ⟨n, ?_, rfl⟩)
  exact List.mem_filterMap.2 ⟨a, ha, hn⟩

theorem levelBelow_cases (levels : NameMap Nat) (dependents : NameSet) :
    levelBelow levels dependents = 0 ∨ ∃ a ∈ dependents, ∃ n, levels.get? a = some n ∧
      levelBelow levels dependents = n + 1 := by
  unfold levelBelow
  cases hmax : ((dependents.toList.filterMap levels.get?).map (· + 1)).max? with
  | none => exact .inl rfl
  | some top =>
    obtain ⟨n, hn, rfl⟩ := List.mem_map.1 (List.max?_mem hmax)
    obtain ⟨a, ha, hn⟩ := List.mem_filterMap.1 hn
    exact .inr ⟨a, ha, n, hn, rfl⟩

/-- The level of a container follows from those of its dependents. -/
theorem hasLevel_levelBelow
    (hall : ∀ a, g.WaitsFor a name → ∃ n, levels.get? a = some n ∧ g.HasLevel a n) :
    g.HasLevel name (levelBelow levels (g.dependents name)) := by
  constructor
  · rcases levelBelow_cases levels (g.dependents name) with hzero | ⟨a, ha, m, hm, htop⟩
    · exact ⟨[], standsAbove_nil g name, hzero.symm⟩
    · have hwaits := mem_dependents.1 ha
      obtain ⟨n, hn, hlevel⟩ := hall a hwaits
      obtain rfl : m = n := Option.some.inj (hm.symm.trans hn)
      obtain ⟨chain, hchain, hlength⟩ := hlevel.exists_chain
      refine ⟨chain ++ [a], standsAbove_concat_iff.2 ⟨hchain, hwaits⟩, ?_⟩
      rw [List.length_append, hlength, List.length_singleton, htop]
  · intro chain hchain
    rcases List.eq_nil_or_concat chain with rfl | ⟨chain, a, rfl⟩
    · exact Nat.zero_le _
    rw [List.concat_eq_append] at hchain ⊢
    obtain ⟨hchain, hwaits⟩ := standsAbove_concat_iff.1 hchain
    obtain ⟨n, hn, hlevel⟩ := hall a hwaits
    have hle := hlevel.length_le chain hchain
    have hlt := lt_levelBelow (mem_dependents.2 hwaits) hn
    rw [List.length_append, List.length_singleton]
    omega

/-- Whether these are the levels of the containers with these names. -/
structure Measures (g : Graph) (levels : NameMap Nat) (names : List String) : Prop where
  get?_iff : ∀ name n, levels.get? name = some n ↔ name ∈ names ∧ g.HasLevel name n
  known : ∀ name ∈ names, ∃ n, levels.get? name = some n

theorem Measures.exists_hasLevel {names : List String} (h : g.Measures levels names)
    (hname : name ∈ names) : ∃ n, levels.get? name = some n ∧ g.HasLevel name n := by
  obtain ⟨n, hn⟩ := h.known name hname
  exact ⟨n, hn, ((h.get?_iff name n).1 hn).2⟩

/-- The pass goes on to a container all of whose dependents it has been through. -/
theorem Measures.concat {names : List String} (h : g.Measures levels names)
    (hall : ∀ a, g.WaitsFor a name → a ∈ names) :
    g.Measures (levels.insert name (levelBelow levels (g.dependents name))) (names ++ [name]) := by
  have hname : g.HasLevel name (levelBelow levels (g.dependents name)) :=
    hasLevel_levelBelow fun a ha => h.exists_hasLevel (hall a ha)
  constructor
  · intro other n
    rw [SortedMap.get?_insert, List.mem_append, List.mem_singleton]
    split
    · next heq =>
      subst heq
      rw [Option.some.injEq]
      exact ⟨fun heq => ⟨.inr rfl, heq ▸ hname⟩, fun hn => hname.unique hn.2⟩
    · next hne => rw [or_iff_left hne, h.get?_iff]
  · intro other ho
    rw [SortedMap.get?_insert]
    split
    · exact ⟨_, rfl⟩
    · next hne => exact h.known other ((List.mem_append.1 ho).resolve_right (by simpa using hne))

theorem measures_levelsAlong
    (h : ∀ before name later, order = before ++ name :: later →
      ∀ a, g.WaitsFor a name → a ∈ before) :
    g.Measures (g.levelsAlong order) order := by
  induction order using List.reverseRecOn with
  | nil => exact ⟨by simp [levelsAlong], by simp⟩
  | append_singleton order name ih =>
    have horder := ih fun before other later heq =>
      h before other (later ++ [name]) (by rw [heq, List.append_assoc, List.cons_append])
    rw [levelsAlong, List.foldl_append, List.foldl_cons, List.foldl_nil]
    exact horder.concat (h order name [] rfl)

/-- **A pass that comes to each container after its dependents finds the level of each
container.** -/
theorem IsTopological.measures (h : g.IsTopological order) :
    g.Measures (g.levelsAlong order) g.names := by
  have hm := measures_levelsAlong h.after
  refine ⟨fun name n => ?_, fun name hname => hm.known name (h.perm.mem_iff.2 hname)⟩
  rw [hm.get?_iff, h.perm.mem_iff]

/-- There is such an order. -/
theorem WellFormed.exists_isTopological (hg : g.WellFormed) : ∃ order, g.IsTopological order := by
  obtain ⟨rank, hrank⟩ := hg.ranked
  have hperm := List.mergeSort_perm g.names fun a b => decide (rank b ≤ rank a)
  have hsorted : (g.names.mergeSort fun a b => decide (rank b ≤ rank a)).Pairwise
      fun a b => rank b ≤ rank a := by
    simpa using @List.pairwise_mergeSort _ (fun a b => decide (rank b ≤ rank a))
      (by simpa using fun a b c hab hbc => Nat.le_trans hbc hab)
      (by simpa using fun a b => Nat.le_total (rank b) (rank a)) g.names
  refine ⟨_, hperm, ?_⟩
  intro before name later horder a ha
  have hlt := hrank a name ha
  have hmem := hperm.mem_iff.2 (mem_names_of_waitsFor ha)
  rw [horder] at hmem hsorted
  refine (List.mem_append.1 hmem).resolve_right fun hlater => ?_
  have hle : rank a ≤ rank name := by
    rcases List.mem_cons.1 hlater with rfl | hlater
    · exact Nat.le_refl _
    · exact List.rel_of_pairwise_cons (List.pairwise_append.1 hsorted).2.1 hlater
  omega

/-! ## Layers are levels -/

/-- Those of the names whose level is one of so many from `first` on, level by level. -/
def buckets (levels : NameMap Nat) (first count : Nat) (names : List String) : List (List String) :=
  ((List.range' first count).map fun n => names.filter fun name => levels.get? name = some n).filter
    (!·.isEmpty)

theorem buckets_succ {first count : Nat} {names : List String} :
    buckets levels first (count + 1) names =
      let top := names.filter fun name => levels.get? name = some first
      if top.isEmpty then buckets levels (first + 1) count names
      else top :: buckets levels (first + 1) count names := by
  unfold buckets
  rw [List.range'_succ, List.map_cons, List.filter_cons]
  cases h : (names.filter fun name => levels.get? name = some first).isEmpty <;> simp [h]

theorem peel_nil (g : Graph) (rounds : Nat) : g.peel rounds [] = [] := by cases rounds <;> rfl

/-- The names whose level is no higher than this. -/
def notAbove (g : Graph) (levels : NameMap Nat) (n : Nat) : List String :=
  g.names.filter fun name => (levels.get? name).any (n ≤ ·)

namespace Measures

theorem mem_notAbove (h : g.Measures levels g.names) :
    name ∈ g.notAbove levels n ↔ ∃ m, g.HasLevel name m ∧ name ∈ g.names ∧ n ≤ m := by
  unfold notAbove
  rw [List.mem_filter, Option.any_eq_true]
  simp only [h.get?_iff, decide_eq_true_eq]
  grind

/-- Among the containers from one level downwards, those on this level are free. -/
theorem isFree_iff (h : g.Measures levels g.names) (hname : name ∈ g.notAbove levels n) :
    g.isFree (g.notAbove levels n) name = true ↔ levels.get? name = some n := by
  obtain ⟨m, hm, hmem, hle⟩ := h.mem_notAbove.1 hname
  rw [Graph.isFree_iff, h.get?_iff]
  constructor
  · intro hfree
    refine ⟨hmem, ?_⟩
    rcases Nat.eq_or_lt_of_le hle with rfl | hlt
    · exact hm
    · obtain ⟨m, rfl⟩ : ∃ k, m = k + 1 := ⟨m - 1, by omega⟩
      obtain ⟨a, hwaits, ha⟩ := hm.exists_waitsFor
      refine absurd hwaits (hfree a (h.mem_notAbove.2 ⟨m, ha, ?_, by omega⟩))
      exact mem_names_of_waitsFor hwaits
  · rintro ⟨-, hn⟩ other ho hwaits
    obtain ⟨k, hk, -, hle⟩ := h.mem_notAbove.1 ho
    have hlt := hk.lt hn hwaits
    omega

theorem filter_isFree (h : g.Measures levels g.names) :
    (g.notAbove levels n).filter (g.isFree (g.notAbove levels n)) =
      g.names.filter fun name => levels.get? name = some n := by
  have hfree : (g.notAbove levels n).filter (g.isFree (g.notAbove levels n)) =
      (g.notAbove levels n).filter fun name => levels.get? name = some n := by
    refine List.filter_congr fun name hname => ?_
    rw [Bool.eq_iff_iff, h.isFree_iff hname, decide_eq_true_iff]
  rw [hfree, notAbove, List.filter_filter]
  refine List.filter_congr fun name _ => ?_
  cases levels.get? name <;> grind

theorem filter_not_isFree (h : g.Measures levels g.names) :
    (g.notAbove levels n).filter (fun name => !g.isFree (g.notAbove levels n) name) =
      g.notAbove levels (n + 1) := by
  have hfree : (g.notAbove levels n).filter (fun name => !g.isFree (g.notAbove levels n) name) =
      (g.notAbove levels n).filter fun name => levels.get? name ≠ some n := by
    refine List.filter_congr fun name hname => ?_
    have hiff := h.isFree_iff hname
    grind
  rw [hfree, notAbove, notAbove, List.filter_filter]
  refine List.filter_congr fun name _ => ?_
  cases levels.get? name <;> grind

/-- Peeling gives level after level. -/
theorem peel_eq (h : g.Measures levels g.names) (hg : g.WellFormed) {rounds : Nat}
    (hbound : ∀ name m, g.HasLevel name m → name ∈ g.names → m < n + rounds) :
    g.peel rounds (g.notAbove levels n) = buckets levels n rounds g.names := by
  induction rounds generalizing n with
  | zero => rfl
  | succ rounds ih =>
    have hnext := ih (n := n + 1) fun name m hm hname => by have := hbound name m hm hname; omega
    rw [peel, buckets_succ, h.filter_isFree, h.filter_not_isFree, hnext]
    dsimp only
    split
    · next hnone =>
      -- Where nobody is free, nobody is left, on this level or below it.
      have hnil : g.notAbove levels n = [] := by
        by_contra hne
        obtain ⟨rank, hrank⟩ := hg.ranked
        obtain ⟨name, hname, hfree⟩ := exists_isFree hrank hne
        have hmem := List.mem_filter.2 ⟨hname, hfree⟩
        rw [h.filter_isFree, List.isEmpty_iff.1 hnone] at hmem
        cases hmem
      rw [← hnext, ← h.filter_not_isFree, hnil]
      exact (peel_nil g rounds).symm
    · rfl

end Measures

theorem mem_names_of_transGen (h : TransGen g.WaitsFor a b) : a ∈ g.names := by
  obtain ⟨c, hac, -⟩ := TransGen.head'_iff.1 h
  exact mem_names_of_waitsFor hac

/-- A chain of dependents is shorter than there are containers. -/
theorem HasLevel.lt_size (h : g.HasLevel name n) (hg : g.WellFormed) (hname : name ∈ g.names) :
    n < g.nodes.size := by
  obtain ⟨chain, hchain, rfl⟩ := h.exists_chain
  have hlater := List.isChain_iff_pairwise.1 (hchain.imp fun _ _ => TransGen.single)
  have honce : (chain ++ [name]).Nodup := by
    refine hlater.imp ?_
    rintro a b hab rfl
    exact hg.not_transGen a hab
  have hall : ∀ a ∈ chain ++ [name], (g.nodes.get? a).isSome := by
    intro a ha
    rcases List.mem_append.1 ha with ha | ha
    · have hbelow := (List.pairwise_append.1 hlater).2.2 a ha name (by simp)
      exact mem_names.1 (mem_names_of_transGen hbelow)
    · exact mem_names.1 (List.mem_singleton.1 ha ▸ hname)
  have hle := length_le_of_nodup honce hall
  rwa [List.length_append, List.length_singleton] at hle

theorem Measures.layers_eq (h : g.Measures levels g.names) (hg : g.WellFormed) :
    g.layers = buckets levels 0 g.nodes.size g.names := by
  have hall : g.names = g.notAbove levels 0 := by
    refine (List.filter_eq_self.2 fun name hname => ?_).symm
    obtain ⟨n, hn⟩ := h.known name hname
    simp [hn]
  rw [layers]
  conv_lhs => rw [hall]
  refine h.peel_eq hg fun name m hm hname => ?_
  rw [Nat.zero_add]
  exact hm.lt_size hg hname

/-! ## Groups are levels -/

theorem filter_map_filter_isEmpty {α : Type} (p : α → Bool) (l : List (List α)) :
    ((l.filter (!·.isEmpty)).map (List.filter p)).filter (!·.isEmpty) =
      (l.map (List.filter p)).filter (!·.isEmpty) := by
  rw [List.filter_map, List.filter_map, List.filter_filter]
  refine congrArg _ (List.filter_congr fun a _ => ?_)
  cases a <;> simp

/-- The wanted containers of the graph are grouped by their levels. -/
theorem Measures.teardownOrder_eq (h : g.Measures levels g.names) (hg : g.WellFormed)
    (wanted : NameSet) :
    g.teardownOrder wanted = buckets levels 0 g.nodes.size wanted.toList := by
  have hlevel : ∀ n, (g.names.filter fun name => levels.get? name = some n).filter wanted.contains =
      wanted.toList.filter fun name => levels.get? name = some n := by
    intro n
    have hascending : g.names.Pairwise fun a b => compare a b = .lt :=
      List.pairwise_map.2 g.nodes.ascending
    have hsame : ((⟨g.names, hascending⟩ : NameSet).filter fun name =>
        levels.get? name = some n).filter wanted.contains =
          wanted.filter fun name => levels.get? name = some n := by
      refine SortedSet.ext_mem fun name => ?_
      simp only [SortedSet.mem_filter, SortedSet.contains, decide_eq_true_eq, h.get?_iff]
      exact ⟨fun hname => ⟨hname.2, hname.1.2⟩, fun hname => ⟨⟨hname.2.1, hname.2⟩, hname.1⟩⟩
    exact congrArg SortedSet.toList hsame
  rw [teardownOrder, h.layers_eq hg, buckets, filter_map_filter_isEmpty, List.map_map]
  unfold buckets
  simp only [Function.comp_def, hlevel]

/-- A name joins those of its level that came before it. -/
theorem get?_foldl_joinLevel (levels : NameMap Nat) (names : List String) (n : Nat) :
    (names.foldl (joinLevel levels) ∅).get? n =
      if (names.filter fun name => levels.get? name = some n).isEmpty then none
      else some (names.filter fun name => levels.get? name = some n) := by
  induction names using List.reverseRecOn with
  | nil => rfl
  | append_singleton names name ih =>
    rw [List.foldl_append, List.foldl_cons, List.foldl_nil, List.filter_append, joinLevel]
    cases hlevel : levels.get? name with
    | none => simpa [hlevel] using ih
    | some level =>
      dsimp only
      rw [SortedMap.get?_insert]
      by_cases heq : n = level
      · subst heq
        have hown : [name].filter (fun name => levels.get? name = some n) = [name] := by
          simp [hlevel]
        have hsome (before : List String) : ¬ (before ++ [name]).isEmpty = true := by simp
        rw [if_pos rfl, ih, hown, if_neg (hsome _)]
        split
        · next hnone => rw [List.isEmpty_iff.1 hnone]; rfl
        · rfl
      · rw [if_neg heq, ih]
        have hne : ¬ level = n := fun h => heq h.symm
        simp [hlevel, hne]

/-- Putting names together by their levels comes to the same as going through the levels. -/
theorem groupsByLevel_eq {bound : Nat} (hbound : ∀ name n, levels.get? name = some n → n < bound)
    (names : NameSet) : groupsByLevel levels names = buckets levels 0 bound names.toList := by
  have hsmall : ∀ n group, (names.toList.foldl (joinLevel levels) ∅).get? n = some group →
      n < bound := by
    intro n group hgroup
    rw [get?_foldl_joinLevel] at hgroup
    split at hgroup
    · cases hgroup
    · next hsome =>
      obtain ⟨name, hname⟩ := List.exists_mem_of_ne_nil _ (mt List.isEmpty_iff.2 hsome)
      exact hbound name n (of_decide_eq_true (List.mem_filter.1 hname).2)
  rw [groupsByLevel, SortedMap.values_eq hsmall, buckets, ← List.filterMap_eq_filter,
    List.filterMap_map]
  refine List.filterMap_congr fun n _ => ?_
  rw [get?_foldl_joinLevel, Function.comp_apply, Option.guard]
  cases (names.toList.filter fun name => levels.get? name = some n).isEmpty <;> rfl

/-! ## What the order is like -/

/-- Whether these are the groups in which the wanted containers of the graph are taken down. -/
structure InLevels (g : Graph) (wanted : NameSet) (groups : List (List String)) : Prop where
  nonempty : [] ∉ groups
  ascending : ∀ group ∈ groups, group.Pairwise (· < ·)
  /-- Whoever is wanted and in the graph is in one of the groups, and nobody else is. -/
  mem_iff : ∀ name, name ∈ groups.flatten ↔ name ∈ wanted ∧ name ∈ g.names
  once : groups.flatten.Nodup
  /-- Also where nobody between the two is wanted. -/
  dependents_first : ∀ a ∈ wanted, ∀ b ∈ wanted, TransGen g.WaitsFor a b → Earlier groups a b
  /-- Those whose longest chains of dependents are equally long are together. -/
  together_iff : ∀ a ∈ groups.flatten, ∀ b ∈ groups.flatten,
    (∃ group ∈ groups, a ∈ group ∧ b ∈ group) ↔ ∃ n, g.HasLevel a n ∧ g.HasLevel b n
  /-- One pass finds the groups, in whatever order it goes, as long as it comes to everybody after
  their dependents. -/
  along : ∀ order, g.IsTopological order → groupsByLevel (g.levelsAlong order) wanted = groups
  exists_order : ∃ order, g.IsTopological order

theorem mem_buckets {first count : Nat} {names group : List String} :
    group ∈ buckets levels first count names ↔ group ≠ [] ∧
      ∃ n, first ≤ n ∧ n < first + count ∧
        group = names.filter fun name => levels.get? name = some n := by
  unfold buckets
  rw [List.mem_filter, List.mem_map, and_comm]
  simp only [List.mem_range'_1, and_assoc, Bool.not_eq_true', List.isEmpty_eq_false_iff,
    eq_comm (a := group)]

/-- Two members are together in a bucket if their levels are known and the same. -/
theorem Measures.together_iff (h : g.Measures levels g.names) {count : Nat} {names : List String}
    (hbound : ∀ name n, levels.get? name = some n → n < count) (ha : a ∈ names) (hb : b ∈ names)
    (hag : a ∈ g.names) (hbg : b ∈ g.names) :
    (∃ group ∈ buckets levels 0 count names, a ∈ group ∧ b ∈ group) ↔
      ∃ n, g.HasLevel a n ∧ g.HasLevel b n := by
  constructor
  · rintro ⟨group, hgroup, hagroup, hbgroup⟩
    obtain ⟨-, n, -, -, rfl⟩ := mem_buckets.1 hgroup
    have hna := of_decide_eq_true (List.mem_filter.1 hagroup).2
    have hnb := of_decide_eq_true (List.mem_filter.1 hbgroup).2
    exact ⟨n, ((h.get?_iff a n).1 hna).2, ((h.get?_iff b n).1 hnb).2⟩
  · rintro ⟨n, hna, hnb⟩
    have hna := (h.get?_iff a n).2 ⟨hag, hna⟩
    have hnb := (h.get?_iff b n).2 ⟨hbg, hnb⟩
    have hmem : a ∈ names.filter fun name => levels.get? name = some n :=
      List.mem_filter.2 ⟨ha, decide_eq_true hna⟩
    refine ⟨_, mem_buckets.2 ⟨List.ne_nil_of_mem hmem, n, Nat.zero_le n, ?_, rfl⟩, hmem, ?_⟩
    · rw [Nat.zero_add]
      exact hbound a n hna
    · exact List.mem_filter.2 ⟨hb, decide_eq_true hnb⟩

/-- **Containers are taken down level by level.** -/
theorem inLevels_teardownOrder {project : Project} {task : String}
    (h : resolve project task = .ok g) (wanted : NameSet) :
    g.InLevels wanted (g.teardownOrder wanted) := by
  have hg := wellFormed_of_resolve h
  have hbound : ∀ {order}, g.IsTopological order → ∀ name n,
      (g.levelsAlong order).get? name = some n → n < g.nodes.size := by
    intro order horder name n hn
    obtain ⟨hname, hlevel⟩ := (horder.measures.get?_iff name n).1 hn
    exact hlevel.lt_size hg hname
  have hmem : ∀ name, name ∈ (g.teardownOrder wanted).flatten ↔ name ∈ wanted ∧ name ∈ g.names := by
    intro name
    rw [flatten_teardownOrder, List.mem_filter, (perm_flatten_layers hg).mem_iff, and_comm,
      SortedSet.contains, decide_eq_true_iff]
  obtain ⟨order, horder⟩ := hg.exists_isTopological
  have heq := horder.measures.teardownOrder_eq hg wanted
  refine ⟨?_, ?_, hmem, ?_, ?_, ?_, ?_, ⟨order, horder⟩⟩
  · rw [heq]
    exact fun hnil => (mem_buckets.1 hnil).1 rfl
  · intro group hgroup
    rw [heq] at hgroup
    obtain ⟨-, n, -, -, rfl⟩ := mem_buckets.1 hgroup
    exact (wanted.ascending.imp compareOfLessAndEq_eq_lt.1).filter _
  · rw [flatten_teardownOrder]
    exact (nodup_flatten_layers hg).filter _
  · intro a ha b hb hab
    exact earlier_teardownOrder hg (mem_names_of_transGen hab) hab ha hb
  · intro a ha b hb
    obtain ⟨haw, hag⟩ := (hmem a).1 ha
    obtain ⟨hbw, hbg⟩ := (hmem b).1 hb
    rw [heq]
    exact horder.measures.together_iff (hbound horder) haw hbw hag hbg
  · intro other ho
    rw [groupsByLevel_eq (hbound ho), ho.measures.teardownOrder_eq hg]

end Graph

/-! ## A theatre with a rail between the curtain and the power -/

namespace Theatre

/-- The curtain hangs on a rail, and both the rail and the lights need power. -/
def project : Project where
  settings := {
    projectName := "theatre"
    containers := .ofList [
      ("curtain", { image := some "velvet", dependencies := ["rail"] }),
      ("lights", { image := some "glass", dependencies := ["power"] }),
      ("play", { image := some "words", dependencies := ["curtain", "lights"] }),
      ("power", { image := some "copper" }),
      ("rail", { image := some "steel", dependencies := ["power"] })]
    tasks := .ofList [("show", { run := some { container := "play" } })] }
  valid := by decide

/-- What the show needs. -/
def graph : Graph where
  projectName := "theatre"
  taskName := "show"
  run := { container := "play" }
  nodes := Graph.nodesOf project (.ofList [
    ("curtain", .ofList ["rail"]), ("lights", .ofList ["power"]),
    ("play", .ofList ["curtain", "lights"]), ("power", ∅), ("rail", .ofList ["power"])])

theorem resolve_project : Graph.resolve project "show" = .ok graph := by decide +kernel

/-- What is still there when the play is over and the rail is gone, with somebody who was never
there. -/
def wanted : NameSet := .ofList ["power", "phantom", "lights", "curtain"]

/-- The curtain goes together with the lights, and before the power, although nothing but the rail
makes it wait for that. -/
theorem curtain_goes_with_lights :
    graph.teardownOrder wanted = [["curtain", "lights"], ["power"]] ∧
      (∃ n, graph.HasLevel "curtain" n ∧ graph.HasLevel "lights" n) ∧
      Earlier (graph.teardownOrder wanted) "curtain" "power" := by
  have horder : graph.teardownOrder wanted = [["curtain", "lights"], ["power"]] := by decide +kernel
  have hlevels := Graph.inLevels_teardownOrder resolve_project wanted
  have hrail : graph.WaitsFor "curtain" "rail" := by unfold Graph.WaitsFor; decide
  have hpower : graph.WaitsFor "rail" "power" := by unfold Graph.WaitsFor; decide
  refine ⟨horder, ?_, ?_⟩
  · refine (hlevels.together_iff "curtain" ?_ "lights" ?_).1 ?_ <;> rw [horder] <;> simp
  · exact hlevels.dependents_first "curtain" (by decide) "power" (by decide)
      (.tail (.single hrail) hpower)

end Theatre

end Stevedore
