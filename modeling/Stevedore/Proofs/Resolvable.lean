import Mathlib.Data.List.Nodup
import Mathlib.Data.List.Pairwise
import Stevedore.Proofs.Resolved

/-!
Which tasks can be resolved at all.

`Project.CanResolve` says it in terms of the settings: the task is there and runs a container, it
does not list this container among its dependencies, whatever it names is there, and from the
container nobody can be reached who is missing or waits for itself in a circle. The search finds
the graph of just these tasks (`exists_resolve_iff`).

That a graph is only found for such a task is read off the graph. For the other direction the
search is followed along its path. Everybody on the path waits for those who come later, so where
there is no circle nobody comes twice, and the path is no longer than there are containers. Hence
neither an error nor the limit on the depth can be met. The limit is never met elsewhere either
(`visit_eq_of_depth`).
-/

namespace Stevedore

open Relation

/-- What makes it possible to find the containers of a task with these settings, which runs a
container like this. -/
structure Project.CanResolve (project : Project) (task : String) (settings : TaskSettings)
    (run : RunSettings) : Prop where
  present : project.task? task = some settings
  runs : settings.run = some run
  /-- The main container is not one of those beside it. -/
  apart : run.container ∉ settings.dependencies
  main_present : (project.container? run.container).isSome
  dependencies_present : ∀ name ∈ settings.dependencies, (project.container? name).isSome
  /-- Whoever the main container needs is there. -/
  all_present : ∀ name, ReflTransGen (project.WaitsFor task) run.container name →
    (project.container? name).isSome
  /-- None of them waits for itself in a circle, however short. -/
  no_circle : ∀ name, ReflTransGen (project.WaitsFor task) run.container name →
    ¬ TransGen (project.WaitsFor task) name name

namespace Graph

variable {project : Project} {task name : String} {path : List String} {depth : Nat}
  {found : NameMap NameSet} {dependencies : NameSet}

/-! ## Paths -/

/-- A path on which nobody comes twice is no longer than a map that has everybody on it. -/
theorem length_le_of_nodup {α : Type} {entries : NameMap α} (h : path.Nodup)
    (hpresent : ∀ name ∈ path, (entries.get? name).isSome) : path.length ≤ entries.size := by
  have hsub : path ⊆ entries.keys := by
    intro name hname
    obtain ⟨value, hvalue⟩ := Option.isSome_iff_exists.1 (hpresent name hname)
    exact List.mem_map.2 ⟨(name, value), SortedMap.mem_entries_iff.2 hvalue, rfl⟩
  have hle := h.length_le_of_subset hsub
  rwa [SortedMap.keys, List.length_map] at hle

/-- **The limit on the depth never shows**: where a search may go as deep as there are containers,
it comes to the same as one that may go deeper, whether it finds anything or not. -/
theorem visit_eq_of_depth {deeper : Nat} (hpath : path.Nodup)
    (hpresent : ∀ other ∈ path, (project.container? other).isSome)
    (hname : (project.container? name).isSome)
    (hdepth : project.settings.containers.size < path.length + depth)
    (hdeeper : project.settings.containers.size < path.length + deeper) :
    visit project task depth path found name dependencies =
      visit project task deeper path found name dependencies := by
  induction depth generalizing deeper path found name dependencies with
  | zero =>
    have hle := length_le_of_nodup hpath hpresent
    omega
  | succ depth ih =>
    obtain ⟨deeper, rfl⟩ : ∃ n, deeper = n + 1 := by
      have hle := length_le_of_nodup hpath hpresent
      exact ⟨deeper - 1, by omega⟩
    unfold visit
    by_cases hnew : name ∈ path
    · simp only [if_pos hnew]
    have hnodup : (path ++ [name]).Nodup := by
      rw [← List.concat_eq_append]
      exact hpath.concat hnew
    have hall : ∀ other ∈ path ++ [name], (project.container? other).isSome := by
      refine List.forall_mem_append.2 ⟨hpresent, ?_⟩
      simpa using hname
    have hsame : ∀ (found : NameMap NameSet) (dependency : String),
        (do
          let settings ← find project dependency (.container name)
          visit project task depth (path ++ [name]) found dependency
            (.ofList settings.dependencies)) =
        (do
          let settings ← find project dependency (.container name)
          visit project task deeper (path ++ [name]) found dependency
            (.ofList settings.dependencies)) := by
      intro found dependency
      cases hfind : find project dependency (.container name) with
      | error problem => rfl
      | ok settings =>
        have hsome : (project.container? dependency).isSome := by rw [find_ok hfind]; rfl
        exact ih hnodup hall hsome (by simp; omega) (by simp; omega)
    simp only [hsame]

/-! ## What the search finds -/

/-- Searches from several names come to an end if each of them does, wherever it starts. -/
theorem exists_foldlM {ε α : Type} {search : α → String → Except ε α} :
    ∀ (names : List String) (start : α),
      (∀ name ∈ names, ∀ start, ∃ next, search start name = .ok next) →
      ∃ last, names.foldlM search start = .ok last := by
  intro names
  induction names with
  | nil =>
    intro start _
    exact ⟨start, rfl⟩
  | cons name names ih =>
    intro start h
    obtain ⟨next, hnext⟩ := h name (List.mem_cons_self ..) start
    obtain ⟨last, hlast⟩ := ih next fun other ho => h other (List.mem_cons_of_mem _ ho)
    refine ⟨last, ?_⟩
    rw [List.foldlM_cons, hnext]
    exact hlast

/-- Whether all names on the way of a search are needed by the first one, and each of them needs
those who come later. -/
structure Trail (needs : String → String → Prop) (first : String) (trail : List String) :
    Prop where
  needed : ∀ name ∈ trail, ReflTransGen needs first name
  waits : trail.Pairwise (TransGen needs)

variable {needs : String → String → Prop} {first : String} {trail : List String}

theorem trail_singleton (needs : String → String → Prop) (first : String) :
    Trail needs first [first] where
  needed name hname := by rw [List.mem_singleton.1 hname]
  waits := List.pairwise_singleton _ _

/-- The search goes on to somebody whom the last one on its way needs. -/
theorem Trail.concat {next : String} (h : Trail needs first (path ++ [name]))
    (hnext : needs name next) : Trail needs first (path ++ [name] ++ [next]) := by
  obtain ⟨-, -, hlast⟩ := List.pairwise_append.1 h.waits
  refine ⟨List.forall_mem_append.2 ⟨h.needed, ?_⟩, List.pairwise_append.2 ⟨h.waits, ?_, ?_⟩⟩
  · simpa using (h.needed name (by simp)).tail hnext
  · exact List.pairwise_singleton _ _
  · intro other ho next' hnext'
    rw [List.mem_singleton.1 hnext']
    rcases List.mem_append.1 ho with ho | ho
    · exact (hlast other ho name (by simp)).tail hnext
    · rw [List.mem_singleton.1 ho]
      exact .single hnext

/-- Where there are no circles, nobody comes twice. -/
theorem Trail.nodup (h : Trail needs first trail)
    (hcircle : ∀ name, ReflTransGen needs first name → ¬ TransGen needs name name) :
    trail.Nodup := by
  refine h.waits.imp_of_mem ?_
  rintro a b ha - hab rfl
  exact hcircle a (h.needed a ha) hab

variable {settings : TaskSettings} {run : RunSettings}

/-- **A search meets no error** where everybody is there and there are no circles. -/
theorem exists_visit (hcan : project.CanResolve task settings run)
    (htrail : Trail (project.WaitsFor task) run.container (path ++ [name]))
    (hdependencies : ∀ b ∈ dependencies, project.WaitsFor task name b)
    (hdepth : project.settings.containers.size < path.length + depth) :
    ∃ found', visit project task depth path found name dependencies = .ok found' := by
  induction depth generalizing path found name dependencies with
  | zero =>
    have hle := length_le_of_nodup (htrail.nodup hcan.no_circle) fun other ho =>
      hcan.all_present other (htrail.needed other ho)
    simp at hle
    omega
  | succ depth ih =>
    have hneeded := htrail.needed name (by simp)
    have hself : name ∉ dependencies := by
      intro hself
      exact hcan.no_circle name hneeded (.single (hdependencies name hself))
    have hnew : name ∉ path := by
      have hnodup := htrail.nodup hcan.no_circle
      rw [← List.concat_eq_append, List.nodup_concat] at hnodup
      exact hnodup.1
    have hnext : ∀ next ∈ dependencies.toList, ∀ start, ∃ found',
        (do
          let settings ← find project next (.container name)
          visit project task depth (path ++ [name]) start next (.ofList settings.dependencies)) =
        .ok found' := by
      intro next hnext start
      have hwaits := hdependencies next hnext
      obtain ⟨declared, hdeclared⟩ :=
        Option.isSome_iff_exists.1 (hcan.all_present next (hneeded.tail hwaits))
      rw [find_eq_ok hdeclared]
      refine ih (htrail.concat hwaits) ?_ (by simp; omega)
      intro b hb
      exact .inl ⟨declared, hdeclared, SortedSet.mem_ofList.1 hb⟩
    unfold visit
    rw [if_neg hself, if_neg hnew]
    split
    · exact ⟨found, rfl⟩
    · obtain ⟨last, hlast⟩ := exists_foldlM dependencies.toList found hnext
      rw [hlast]
      exact ⟨_, rfl⟩

/-! ## What a graph tells of the settings -/

/-- In a graph nobody waits for itself. -/
theorem WellFormed.not_transGen {g : Graph} (hg : g.WellFormed) (a : String) :
    ¬ TransGen g.WaitsFor a a := by
  obtain ⟨rank, hrank⟩ := hg.ranked
  have hfalls : ∀ b, TransGen g.WaitsFor a b → rank b < rank a := by
    intro b hab
    induction hab with
    | single hab => exact hrank _ _ hab
    | tail _ hbc ih => exact Nat.lt_trans (hrank _ _ hbc) ih
  intro haa
  exact Nat.lt_irrefl _ (hfalls a haa)

/-- Whoever is in the graph of a task is a container of the project. -/
theorem isSome_container?_of_resolve {g : Graph} (h : resolve project task = .ok g)
    (hname : g.nodes.contains name = true) : (project.container? name).isSome := by
  obtain ⟨_, _, found, -, -, -, hnodes, -⟩ := resolve_found h
  obtain ⟨node, hnode⟩ := Option.isSome_iff_exists.1 hname
  rw [hnodes] at hnode
  obtain ⟨_, declared, -, hdeclared, -⟩ := get?_nodesOf.1 hnode
  rw [hdeclared]
  rfl

/-- Whoever the main container needs is in the graph. -/
theorem contains_of_needed {g : Graph} (h : resolve project task = .ok g)
    (hneeded : ReflTransGen (project.WaitsFor task) g.main name) :
    g.nodes.contains name = true := by
  have hg := wellFormed_of_resolve h
  induction hneeded with
  | refl => exact hg.main_mem
  | tail _ hab ih => exact hg.closed _ _ ((waitsFor_iff_of_resolve h ih).2 hab)

/-- **A task can be resolved exactly if its settings allow for it.** -/
theorem exists_resolve_iff (project : Project) (task : String) :
    (∃ g, resolve project task = .ok g) ↔
      ∃ settings run, project.CanResolve task settings run := by
  constructor
  · rintro ⟨g, h⟩
    have hg := wellFormed_of_resolve h
    obtain ⟨settings, run, main, _, hs, hr, hapart, hmain, hall, -, heq⟩ := resolve_eq_ok_iff.1 h
    have hrun : run.container = g.main := by rw [heq]; rfl
    refine ⟨settings, run, hs, hr, hapart, by rw [hmain]; rfl, hall, ?_, ?_⟩
    · intro name hneeded
      rw [hrun] at hneeded
      exact isSome_container?_of_resolve h (contains_of_needed h hneeded)
    · intro name hneeded hcircle
      rw [hrun] at hneeded
      exact hg.not_transGen name
        (transGen_waitsFor_of_resolve h (contains_of_needed h hneeded) hcircle)
  · rintro ⟨settings, run, hcan⟩
    obtain ⟨main, hmain⟩ := Option.isSome_iff_exists.1 hcan.main_present
    have hwaits : ∀ b ∈ SortedSet.ofList (settings.dependencies ++ main.dependencies),
        project.WaitsFor task run.container b := by
      intro b hb
      rcases List.mem_append.1 (SortedSet.mem_ofList.1 hb) with hb | hb
      · exact .inr ⟨settings, run, hcan.present, hcan.runs, rfl, hb⟩
      · exact .inl ⟨main, hmain, hb⟩
    have hdepth : project.settings.containers.size <
        ([] : List String).length + (project.settings.containers.size + 2) := by simp
    obtain ⟨found, hfound⟩ : ∃ found, visit project task _ _ ∅ _ _ = .ok found :=
      exists_visit hcan (trail_singleton (project.WaitsFor task) run.container) hwaits hdepth
    exact ⟨_, resolve_eq_ok_iff.2 ⟨settings, run, main, found, hcan.present, hcan.runs,
      hcan.apart, hmain, hcan.dependencies_present, hfound, rfl⟩⟩

end Graph

end Stevedore
