import Mathlib.Data.List.Nodup
import Stevedore.Cache
import Stevedore.Proofs.Resolved

/-!
Who shares a cache, and who may not.

A cache belongs to one owner, so all containers that mount it have to run as the current user, or
none of them. Where two containers of a task disagree about this (`Graph.Dispute`), the caches of
the task are refused, and two such containers are named; where nobody disagrees, every cache that is
mounted comes with its store and with everybody who mounts it (`settles_of_resolve`).

The containers are gone through by name, each with its mounts (`Graph.cacheUses`), and one map is
changed on the way. It is the map of what has been gone through (`Cache.Reflects`): all users of a
cache that were met so far agree, so it is enough to compare the next one with the entry. The user
that is named first comes earlier on the way, and is another container, which is why its name is the
smaller one.
-/

namespace Stevedore

/-! ## Mounts -/

/-- Whether the container mounts a cache of this name. -/
def Container.Mounts (c : Container) (cache : String) : Prop :=
  ∃ target, .cache cache target ∈ c.mounts

theorem Container.mem_cacheMounts {c : Container} {cache target : String} :
    (cache, target) ∈ c.cacheMounts ↔ .cache cache target ∈ c.mounts := by
  simp only [cacheMounts, List.mem_filterMap]
  constructor
  · intro h
    obtain ⟨mount, hmount, heq⟩ := h
    cases mount with
    | host => simp at heq
    | cache other place =>
      simp only [Option.some.injEq, Prod.mk.injEq] at heq
      obtain ⟨rfl, rfl⟩ := heq
      exact hmount
  · intro h
    exact ⟨_, h, rfl⟩

namespace Graph

variable {g : Graph} {c : Container} {cache : String}

/-- All containers with the caches that they mount, container by container. -/
def cacheUses (g : Graph) : List (Container × String) :=
  g.containers.flatMap fun c => c.cacheMounts.map fun mount => (c, mount.1)

theorem mem_cacheUses : (c, cache) ∈ g.cacheUses ↔ c ∈ g.containers ∧ c.Mounts cache := by
  simp only [cacheUses, List.mem_flatMap, List.mem_map, Prod.mk.injEq, Container.Mounts,
    ← Container.mem_cacheMounts]
  constructor
  · intro h
    obtain ⟨d, hd, ⟨other, target⟩, hmount, rfl, rfl⟩ := h
    exact ⟨hd, target, hmount⟩
  · intro h
    obtain ⟨hc, target, hmount⟩ := h
    exact ⟨c, hc, (cache, target), hmount, rfl, rfl⟩

/-- The containers of a graph stand in order of their names. -/
theorem WellFormed.containers_ascending (hg : g.WellFormed) :
    g.containers.Pairwise fun a b => a.name < b.name := by
  have hnames : g.containers.map (·.name) = g.nodes.keys := by
    simp only [containers, SortedMap.values, SortedMap.keys, List.map_map]
    refine List.map_congr_left fun entry hentry => ?_
    exact hg.named entry.1 entry.2 (SortedMap.mem_entries_iff.1 hentry)
  refine List.pairwise_map.1 ?_
  rw [hnames]
  exact g.nodes.keys_ascending

/-- So whoever comes later on the way through the mounts has a greater name, or is the same. -/
theorem WellFormed.cacheUses_ascending (hg : g.WellFormed) :
    g.cacheUses.Pairwise fun u v => u.1 = v.1 ∨ u.1.name < v.1.name := by
  rw [cacheUses, List.pairwise_flatMap]
  constructor
  · intro c _
    rw [List.pairwise_map]
    exact List.pairwise_of_forall fun _ _ => .inl rfl
  · refine hg.containers_ascending.imp ?_
    intro a b hlt u hu v hv
    obtain ⟨_, -, rfl⟩ := List.mem_map.1 hu
    obtain ⟨_, -, rfl⟩ := List.mem_map.1 hv
    exact .inr hlt

/-- Whether the two containers mount a cache that cannot belong to both. -/
structure Dispute (g : Graph) (cache : String) (a b : Container) : Prop where
  left : a ∈ g.containers
  right : b ∈ g.containers
  left_mounts : a.Mounts cache
  right_mounts : b.Mounts cache
  differ : a.runsAsCurrentUser ≠ b.runsAsCurrentUser

end Graph

namespace Cache

variable {stores : CacheStores} {uses done : List (Container × String)}
  {caches caches' : NameMap Cache} {c : Container} {cache : String} {conflict : CacheConflict}

/-! ## One mount -/

/-- Whether the entry is right about a cache that has these users. -/
structure IsSharedBy (stores : CacheStores) (cache : String) (users : Container → Prop)
    (entry : Cache) : Prop where
  name : entry.name = cache
  store : entry.store = stores.store cache
  mem_iff : ∀ name, name ∈ entry.containers ↔ ∃ c, users c ∧ c.name = name
  alike : ∀ c, users c → c.runsAsCurrentUser = entry.runAsCurrentUser

/-- Whether these are the caches of the uses that have been gone through. -/
structure Reflects (stores : CacheStores) (uses : List (Container × String))
    (caches : NameMap Cache) : Prop where
  used_iff : ∀ cache, (∃ entry, caches.get? cache = some entry) ↔ ∃ c, (c, cache) ∈ uses
  shared : ∀ cache entry, caches.get? cache = some entry →
    entry.IsSharedBy stores cache fun c => (c, cache) ∈ uses

theorem reflects_empty (stores : CacheStores) : Reflects stores [] ∅ where
  used_iff cache := by simp
  shared cache entry h := by simp at h

/-- A mount that is let through changes the entry of its cache only. -/
theorem Reflects.exists_eq_insert (h : Reflects stores uses caches)
    (hadd : addMount stores c caches cache = .ok caches') :
    ∃ entry, caches' = caches.insert cache entry ∧
      entry.IsSharedBy stores cache fun d => (d, cache) ∈ uses ++ [(c, cache)] := by
  unfold addMount at hadd
  cases hknown : caches.get? cache with
  | none =>
    have hunused : ∀ d, (d, cache) ∉ uses := by
      intro d hd
      obtain ⟨entry, hentry⟩ := (h.used_iff cache).2 ⟨d, hd⟩
      simp [hknown] at hentry
    simp only [hknown, Except.ok.injEq] at hadd
    refine ⟨_, hadd.symm, rfl, rfl, ?_, ?_⟩
    · simp [hunused, eq_comm]
    · simp [hunused]
  | some known =>
    have hshared := h.shared cache known hknown
    simp only [hknown] at hadd
    split at hadd
    · next hsame =>
      refine ⟨_, (Except.ok.inj hadd).symm, hshared.name, hshared.store, ?_, ?_⟩
      · intro name
        simp only [SortedSet.mem_insert, hshared.mem_iff]
        grind
      · intro d hd
        rcases List.mem_append.1 hd with hd | hd
        · exact hshared.alike d hd
        · simp only [List.mem_singleton, Prod.mk.injEq] at hd
          rw [hd.1, hsame]
    · simp at hadd

/-- A mount that is let through has been gone through then. -/
theorem Reflects.concat (h : Reflects stores uses caches)
    (hadd : addMount stores c caches cache = .ok caches') :
    Reflects stores (uses ++ [(c, cache)]) caches' := by
  obtain ⟨entry, rfl, hentry⟩ := h.exists_eq_insert hadd
  constructor
  · intro other
    by_cases hother : other = cache
    · subst hother
      simp only [SortedMap.get?_insert_self]
      exact iff_of_true ⟨entry, rfl⟩ ⟨c, by simp⟩
    · simp [SortedMap.get?_insert, hother, h.used_iff]
  · intro other found hfound
    by_cases hother : other = cache
    · subst hother
      simp only [SortedMap.get?_insert_self, Option.some.injEq] at hfound
      exact hfound ▸ hentry
    · simp only [SortedMap.get?_insert, hother, if_false] at hfound
      simpa [hother] using h.shared other found hfound

/-- A mount that is refused belongs to a container that differs from one that was met before. -/
theorem Reflects.exists_of_addMount_eq_error (h : Reflects stores uses caches)
    (hadd : addMount stores c caches cache = .error conflict) :
    conflict.cache = cache ∧ conflict.second = c.name ∧ ∃ a, (a, cache) ∈ uses ∧
      a.name = conflict.first ∧ a.runsAsCurrentUser ≠ c.runsAsCurrentUser := by
  unfold addMount at hadd
  cases hknown : caches.get? cache with
  | none => simp [hknown] at hadd
  | some known =>
    have hshared := h.shared cache known hknown
    simp only [hknown] at hadd
    split at hadd
    · simp at hadd
    · next hdiffer =>
      obtain ⟨d, hd⟩ := (h.used_iff cache).1 ⟨known, hknown⟩
      have hmem : d.name ∈ known.containers := (hshared.mem_iff d.name).2 ⟨d, hd, rfl⟩
      have hhead : known.containers.toList.headD "" ∈ known.containers := by
        cases hlist : known.containers.toList with
        | nil => simp [SortedSet.mem_def, hlist] at hmem
        | cons first rest => simp [SortedSet.mem_def, hlist]
      obtain ⟨a, ha, hname⟩ := (hshared.mem_iff _).1 hhead
      rw [← Except.error.inj hadd]
      exact ⟨rfl, rfl, a, ha, hname, by rw [hshared.alike a ha]; exact hdiffer⟩

/-! ## All mounts -/

theorem resolve_eq_foldlM (g : Graph) (stores : CacheStores) :
    resolve g stores =
      g.cacheUses.foldlM (fun caches use => addMount stores use.1 caches use.2) ∅ := by
  unfold resolve Graph.cacheUses
  generalize (∅ : NameMap Cache) = caches
  induction g.containers generalizing caches with
  | nil => rfl
  | cons c rest ih =>
    rw [List.foldlM_cons, List.flatMap_cons, List.foldlM_append, List.foldlM_map, List.foldlM_map]
    exact congrArg _ (funext ih)

/-- Whoever goes through all mounts knows the caches of all of them. -/
theorem Reflects.foldlM (h : Reflects stores done caches)
    (hfold : uses.foldlM (fun caches use => addMount stores use.1 caches use.2) caches =
      .ok caches') : Reflects stores (done ++ uses) caches' := by
  induction uses generalizing done caches with
  | nil =>
    rw [List.append_nil, ← Except.ok.inj hfold]
    exact h
  | cons use rest ih =>
    rw [List.foldlM_cons] at hfold
    obtain ⟨mid, hadd, hrest⟩ := Graph.bind_eq_ok hfold
    simpa using ih (h.concat hadd) hrest

/-- Whoever cannot go through all mounts has met one that is refused. -/
theorem Reflects.exists_of_foldlM_eq_error (h : Reflects stores done caches)
    (hfold : uses.foldlM (fun caches use => addMount stores use.1 caches use.2) caches =
      .error conflict) :
    ∃ before c after, uses = before ++ (c, conflict.cache) :: after ∧ conflict.second = c.name ∧
      ∃ a, (a, conflict.cache) ∈ done ++ before ∧ a.name = conflict.first ∧
        a.runsAsCurrentUser ≠ c.runsAsCurrentUser := by
  induction uses generalizing done caches with
  | nil => cases hfold
  | cons use rest ih =>
    obtain ⟨c, cache⟩ := use
    rw [List.foldlM_cons] at hfold
    cases hadd : addMount stores c caches cache with
    | error other =>
      simp only [hadd] at hfold
      obtain rfl : other = conflict := Except.error.inj hfold
      obtain ⟨rfl, hsecond, a, ha, hrest⟩ := h.exists_of_addMount_eq_error hadd
      exact ⟨[], c, rest, rfl, hsecond, a, by simpa using ha, hrest⟩
    | ok mid =>
      simp only [hadd] at hfold
      obtain ⟨before, d, after, rfl, hsecond, a, ha, hrest⟩ := ih (h.concat hadd) hfold
      exact ⟨(c, cache) :: before, d, after, rfl, hsecond, a, by simpa using ha, hrest⟩

variable {g : Graph}

theorem reflects_of_resolve (h : resolve g stores = .ok caches) :
    Reflects stores g.cacheUses caches := by
  rw [resolve_eq_foldlM] at h
  exact (reflects_empty stores).foldlM h

/-- Two containers of which one comes before the other are named when the caches are refused. -/
theorem exists_dispute_of_resolve (hg : g.WellFormed) (h : resolve g stores = .error conflict) :
    ∃ a b, g.Dispute conflict.cache a b ∧ a.name = conflict.first ∧ b.name = conflict.second ∧
      conflict.first < conflict.second := by
  rw [resolve_eq_foldlM] at h
  obtain ⟨before, b, after, huses, hsecond, a, ha, hfirst, hdiffer⟩ :=
    (reflects_empty stores).exists_of_foldlM_eq_error h
  rw [List.nil_append] at ha
  have hascending := hg.cacheUses_ascending
  rw [huses] at hascending
  have horder := (List.pairwise_append.1 hascending).2.2 _ ha _ (List.mem_cons_self ..)
  obtain ⟨haMem, haMounts⟩ := Graph.mem_cacheUses.1 (huses ▸ List.mem_append_left _ ha)
  obtain ⟨hbMem, hbMounts⟩ : b ∈ g.containers ∧ b.Mounts conflict.cache :=
    Graph.mem_cacheUses.1 (huses ▸ by simp)
  refine ⟨a, b, ⟨haMem, hbMem, haMounts, hbMounts, hdiffer⟩, hfirst, hsecond.symm, ?_⟩
  rw [← hfirst, hsecond]
  refine horder.resolve_left ?_
  rintro rfl
  exact hdiffer rfl

theorem isSharedBy_of_resolve {entry : Cache} (h : resolve g stores = .ok caches)
    (hentry : caches.get? cache = some entry) :
    entry.IsSharedBy stores cache fun c => c ∈ g.containers ∧ c.Mounts cache := by
  simpa only [Graph.mem_cacheUses] using (reflects_of_resolve h).shared cache entry hentry

theorem mounted_iff_of_resolve (h : resolve g stores = .ok caches) :
    (∃ entry, caches.get? cache = some entry) ↔ ∃ c ∈ g.containers, c.Mounts cache := by
  simpa only [Graph.mem_cacheUses] using (reflects_of_resolve h).used_iff cache

/-- An entry goes by the name of its cache, so there are no two for one cache. -/
theorem nodup_names_of_resolve (h : resolve g stores = .ok caches) :
    (caches.values.map (·.name)).Nodup := by
  have hkeys : caches.values.map (·.name) = caches.keys := by
    simp only [SortedMap.values, SortedMap.keys, List.map_map]
    refine List.map_congr_left fun e he => ?_
    exact (isSharedBy_of_resolve h (SortedMap.mem_entries_iff.1 he)).name
  rw [hkeys]
  exact caches.nodup_keys

/-- Where two disagree there is no entry that could agree with both. -/
theorem exists_conflict {a b : Container} (hdispute : g.Dispute cache a b) :
    ∃ conflict, resolve g stores = .error conflict := by
  cases h : resolve g stores with
  | error conflict => exact ⟨conflict, rfl⟩
  | ok caches =>
    obtain ⟨entry, hentry⟩ :=
      (mounted_iff_of_resolve h).2 ⟨a, hdispute.left, hdispute.left_mounts⟩
    have halike := (isSharedBy_of_resolve h hentry).alike
    have ha := halike a ⟨hdispute.left, hdispute.left_mounts⟩
    have hb := halike b ⟨hdispute.right, hdispute.right_mounts⟩
    exact absurd (ha.trans hb.symm) hdispute.differ

/-- What the caches of a task come to. -/
structure Settles (g : Graph) (stores : CacheStores) : Prop where
  /-- They are refused exactly if somebody disagrees. -/
  refused_iff : (∃ conflict, resolve g stores = .error conflict) ↔ ∃ cache a b, g.Dispute cache a b
  /-- Then two who disagree are named, in order of their names. -/
  refused : ∀ conflict, resolve g stores = .error conflict →
    ∃ a b, g.Dispute conflict.cache a b ∧ a.name = conflict.first ∧ b.name = conflict.second ∧
      conflict.first < conflict.second
  /-- Otherwise there is an entry for each cache that is mounted, -/
  mounted_iff : ∀ caches, resolve g stores = .ok caches → ∀ cache,
    (∃ entry, caches.get? cache = some entry) ↔ ∃ c ∈ g.containers, c.Mounts cache
  /-- and only one, -/
  once : ∀ caches, resolve g stores = .ok caches → (caches.values.map (·.name)).Nodup
  /-- which tells where the cache is, whom it belongs to, and everybody who mounts it. -/
  shared : ∀ caches, resolve g stores = .ok caches → ∀ cache entry,
    caches.get? cache = some entry →
      entry.IsSharedBy stores cache fun c => c ∈ g.containers ∧ c.Mounts cache

/-- **The caches of a task are those that its containers mount, unless two of them disagree about
one.** -/
theorem settles_of_resolve {project : Project} {task : String}
    (hresolve : Graph.resolve project task = .ok g) (stores : CacheStores) : Settles g stores where
  refused_iff := by
    constructor
    · intro h
      obtain ⟨conflict, h⟩ := h
      obtain ⟨a, b, hdispute, -⟩ :=
        exists_dispute_of_resolve (Graph.wellFormed_of_resolve hresolve) h
      exact ⟨conflict.cache, a, b, hdispute⟩
    · intro h
      obtain ⟨cache, a, b, hdispute⟩ := h
      exact exists_conflict hdispute
  refused _ := exists_dispute_of_resolve (Graph.wellFormed_of_resolve hresolve)
  mounted_iff _ h _ := mounted_iff_of_resolve h
  once _ := nodup_names_of_resolve
  shared _ h _ _ := isSharedBy_of_resolve h

end Cache

/-! ## Must and vinegar -/

namespace Winery

/-- Everybody in the winery needs the must. The press and the barrel belong to whoever is there, and
share the sieve as well; the vat belongs to the house. -/
def project : Project where
  settings := {
    projectName := "winery"
    containers := .ofList [
      ("barrel", { image := some "oak", runAsCurrentUser := ⟨true, some "/home"⟩,
                   volumes := [.cache "sieve" "/sieve", .cache "must" "/in", .cache "must" "/out"],
                   dependencies := ["press", "vat"] }),
      ("press", { image := some "beech", runAsCurrentUser := ⟨true, some "/home"⟩,
                  volumes := [.cache "must" "/must", .cache "sieve" "/sieve"] }),
      ("vat", { image := some "clay",
                volumes := [.host ⟨"grapes"⟩ "/grapes" none, .cache "must" "/must"] })]
    tasks := .ofList [("ripen", { run := some { container := "barrel" } })] }
  valid := by decide

/-- All that is needed to let the wine ripen. -/
def graph : Graph where
  projectName := "winery"
  taskName := "ripen"
  run := { container := "barrel" }
  nodes := Graph.nodesOf project
    (.ofList [("barrel", .ofList ["press", "vat"]), ("press", ∅), ("vat", ∅)])

theorem resolve_project : Graph.resolve project "ripen" = .ok graph := by decide +kernel

/-- The sieve can be shared. It is the must that cannot belong to the barrel and to the vat. -/
theorem must_is_disputed : ∃ a b, graph.Dispute "must" a b ∧ a.name = "barrel" ∧ b.name = "vat" ∧
    "barrel" < "vat" := by
  have hrefused : Cache.resolve graph project.cacheStores = .error ⟨"must", "barrel", "vat"⟩ := by
    decide +kernel
  exact (Cache.settles_of_resolve resolve_project project.cacheStores).refused _ hrefused

end Winery

end Stevedore
