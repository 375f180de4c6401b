import Stevedore.Proofs.Lawful
import Stevedore.Proofs.RunStage

/-!
Nothing is created before what it needs.

A container is created only when its image, the network and the caches are there and whoever it
waits for is ready. The planner looks at those it waits for directly. That everybody further down
is ready too is nowhere looked at; it holds because whoever is ready was created once, and was
created under the same condition.
-/

namespace Stevedore.Moment

open Relation

variable {g : Graph} {m : Machine} {t : Moment}

/-- What was reached was reached by a step that was allowed. -/
theorem Lawful.allows_of_reachedIn (h : Lawful g t) {k : Milestone} (hk : k.ReachedIn t.log) :
    ∃ step ∈ startedIn t.log, step.milestone = k ∧ g.Allows t.log step := by
  obtain ⟨step, hs, hm, -⟩ := h.earned k hk
  exact ⟨step, hs, hm, h.allowed step (List.mem_append_left _ hs)⟩

/-- Whoever was created was allowed to be. -/
theorem Lawful.allows_of_created (h : Lawful g t) {c : String} {handle : Handle}
    (hc : .containerCreated c handle ∈ t.log) :
    ∃ image network, g.Allows t.log (.createContainer c image network) := by
  obtain ⟨step, -, hm, ha⟩ := h.allows_of_reachedIn (k := .created c) ⟨_, hc, rfl⟩
  cases step <;> simp only [Step.milestone, reduceCtorEq, Milestone.created.injEq] at hm
  subst hm
  exact ⟨_, _, ha⟩

/-- Whoever was created found everybody ready that it waits for. -/
theorem Lawful.ready_of_created (h : Lawful g t) {c d : String} {handle : Handle}
    (hc : .containerCreated c handle ∈ t.log) (hw : g.WaitsFor c d) :
    .containerReady d ∈ t.log := by
  obtain ⟨image, network, -, -, -, hready⟩ := h.allows_of_created hc
  exact hready d hw

/-- Whoever is ready was created. -/
theorem Lawful.created_of_ready (h : Lawful g t) {c : String} (hr : .containerReady c ∈ t.log) :
    ∃ handle, .containerCreated c handle ∈ t.log := by
  obtain ⟨step, -, hm, ha⟩ := h.allows_of_reachedIn (k := .ready c) ⟨_, hr, rfl⟩
  cases step <;> simp only [Step.milestone, reduceCtorEq, Milestone.ready.injEq] at hm
  subst hm
  exact ⟨_, ha.2.1⟩

/-- If those at the beginning of a chain are ready, so is its end. -/
theorem Lawful.ready_of_transGen (h : Lawful g t) {c d : String}
    (hfirst : ∀ b, g.WaitsFor c b → .containerReady b ∈ t.log)
    (hcd : TransGen g.WaitsFor c d) : .containerReady d ∈ t.log := by
  induction hcd with
  | single hw => exact hfirst _ hw
  | tail _ hw ih =>
    obtain ⟨handle, hc⟩ := h.created_of_ready ih
    exact h.ready_of_created hc hw

/-- Whoever was created belongs to the task. -/
theorem Reachable.mem_names (hg : m.graph.WellFormed) (h : Reachable m t) {c : String}
    {handle : Handle} (hc : .containerCreated c handle ∈ t.log) : c ∈ m.graph.names := by
  obtain ⟨_, _, ⟨k, hk, rfl, -⟩, -⟩ := (h.lawful hg).allows_of_created hc
  exact Graph.name_mem_names hg hk

/-- A step that starts is allowed by what was posted before. -/
theorem Reachable.allows {before after : List Event} {step : Step} (hg : m.graph.WellFormed)
    (h : Reachable m t) (hlog : t.log = before ++ .stepStarting step :: after) :
    m.graph.Allows before step := by
  obtain ⟨u, rest, hu, rfl, hw⟩ := h.announced hlog
  exact (hu.lawful hg).allowed step (by simp [hw])

/-- What was posted up to some event is the log of a lawful moment. -/
theorem Reachable.lawful_before {before after : List Event} {e : Event} (hg : m.graph.WellFormed)
    (h : Reachable m t) (hlog : t.log = before ++ e :: after) :
    ∃ u, Lawful m.graph u ∧ u.log = before := by
  obtain ⟨u, -, hu, -, rfl, -⟩ := h.posted hlog
  exact ⟨u, hu.lawful hg, rfl⟩

/-- **A container is created after everything it needs**: the very network and image that it is
created with, the caches, and everybody it waits for, directly or through others. -/
theorem createContainer_after_needs {project : Project} {task c : String} {image : Image}
    {network : Network} {before after : List Event}
    (hresolve : Graph.resolve project task = .ok m.graph) (hreach : Reachable m t)
    (hlog : t.log = before ++ .stepStarting (.createContainer c image network) :: after) :
    .networkCreated network ∈ before ∧ .cachesInitialised ∈ before ∧
      (∃ k, m.graph.container? c = some k ∧ k.imageEvent image ∈ before) ∧
      ∀ d, TransGen (project.WaitsFor task) c d → .containerReady d ∈ before := by
  have hg := Graph.wellFormed_of_resolve hresolve
  obtain ⟨⟨k, hk, rfl, himage⟩, hnetwork, hcaches, hready⟩ := hreach.allows hg hlog
  -- The dependencies of `c` itself were looked at; the others follow in the moment before.
  obtain ⟨u, hu, rfl⟩ := hreach.lawful_before hg hlog
  refine ⟨hnetwork, hcaches, ⟨k, (Graph.mem_containers hg).1 hk, himage⟩, ?_⟩
  intro d hcd
  have hmem : m.graph.nodes.contains k.name = true :=
    Graph.mem_names.1 (Graph.name_mem_names hg hk)
  exact hu.ready_of_transGen hready (Graph.transGen_waitsFor_of_resolve hresolve hmem hcd)

/-- The till of the shop is created when the shelf is ready, and the ladder behind it. -/
theorem till_after_shelf_and_ladder : ∃ before after,
    Shop.log = before ++ .stepStarting (.createContainer "till" ⟨"till"⟩ ⟨"network"⟩) :: after ∧
      .containerReady "shelf" ∈ before ∧ .containerReady "ladder" ∈ before := by
  obtain ⟨t, ht, hlog, -⟩ := Shop.reachable_log
  have hsplit : Shop.log = Shop.log.take 24 ++
      .stepStarting (.createContainer "till" ⟨"till"⟩ ⟨"network"⟩) :: Shop.log.drop 25 := by
    decide
  obtain ⟨-, -, -, hready⟩ :=
    createContainer_after_needs Shop.resolve_project ht (hlog.trans hsplit)
  have hshelf : Shop.project.WaitsFor "open" "till" "shelf" := .inl ⟨_, rfl, by decide⟩
  have hladder : Shop.project.WaitsFor "open" "shelf" "ladder" := .inl ⟨_, rfl, by decide⟩
  exact ⟨_, _, hsplit, hready _ (.single hshelf), hready _ (.tail (.single hshelf) hladder)⟩

end Stevedore.Moment
