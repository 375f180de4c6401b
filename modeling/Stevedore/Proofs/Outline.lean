import Stevedore.Proofs.Interruption
import Stevedore.Proofs.Lifecycle
import Stevedore.Proofs.Removal
import Stevedore.Session.Outline

/-!
What the outline of a task says about its cleanup comes true.

The outline puts all containers of the task into the order in which they would be taken down. The
plan of a cleanup is made from the events, and takes down the containers that these tell to be
there. Its groups of removals are the layers of the graph without the containers that are not
outstanding (`Graph.removals_teardownPlan`), whatever has happened. A run whose main container has
exited had every container of the task ready before, so all of them were created, and a run stage
removes none (`Moment.Reachable.outstanding_iff`). So nothing is left out of the layers, and the
plan has the groups of the outline.
-/

namespace Stevedore

/-- Whether a group of steps removes containers and does nothing else. -/
def removesOnly (group : List Step) : Bool :=
  (group.all fun step => step.removed?.isSome) && !group.isEmpty

/-- The groups that remove containers, each by the names of its containers. -/
def removalsIn (groups : List (List Step)) : List (List String) :=
  (groups.filter removesOnly).map fun group => group.filterMap Step.container?

/-- The lines in which an outline tells of groups that come one after the other. -/
def Session.orderLines (groups : List (List String)) : List String :=
  groups.zipIdx.map fun (group, i) =>
    let names := ", ".intercalate group
    s!"  {i + 1}. {names}"

/-! ## The removals of a plan -/

variable {g : Graph} {s : Summary} {group : List Step} {layer : List String}

theorem removalsIn_append (groups later : List (List Step)) :
    removalsIn (groups ++ later) = removalsIn groups ++ removalsIn later := by
  simp [removalsIn]

theorem removalsIn_filter_isEmpty (groups : List (List Step)) :
    removalsIn (groups.filter (!·.isEmpty)) = removalsIn groups := by
  have hnonempty : (fun group => removesOnly group && !group.isEmpty) = removesOnly := by
    funext group
    simp [removesOnly]
  rw [removalsIn, List.filter_filter, hnonempty, removalsIn]

/-- A group none of whose steps removes a container. -/
theorem removesOnly_eq_false (h : ∀ step ∈ group, step.removed? = none) :
    removesOnly group = false := by
  cases group with
  | nil => rfl
  | cons step group => simp [removesOnly, h step (List.mem_cons_self ..)]

theorem removesOnly_stops (s : Summary) (layer : List String) :
    removesOnly (layer.filterMap s.stop?) = false := by
  refine removesOnly_eq_false fun step hs => ?_
  obtain ⟨name, -, hstop⟩ := List.mem_filterMap.1 hs
  obtain ⟨handle, -, -, rfl⟩ := Summary.stop?_eq_some.1 hstop
  rfl

/-- Of the two groups of a layer only the second one is of removals. -/
theorem removalsIn_layerGroups (hne : layer ≠ [])
    (hcreated : ∀ name ∈ layer, ∃ handle, s.created.get? name = some handle) :
    removalsIn (layerGroups s layer) = [layer] := by
  have hremoval : ∀ name ∈ layer, ∃ handle,
      s.removal? name = some (.removeContainer name handle) := by
    intro name hname
    obtain ⟨handle, hhandle⟩ := hcreated name hname
    exact ⟨handle, Summary.removal?_eq_some.2 ⟨handle, hhandle, rfl⟩⟩
  have hnames : (layer.filterMap s.removal?).filterMap Step.container? = layer := by
    rw [List.filterMap_filterMap]
    refine (List.filterMap_congr fun name hname => ?_).trans List.filterMap_some
    obtain ⟨handle, h⟩ := hremoval name hname
    simp [h, Step.container?]
  have honly : removesOnly (layer.filterMap s.removal?) = true := by
    have hsome : layer.filterMap s.removal? ≠ [] := by
      intro hnil
      rw [hnil] at hnames
      exact hne hnames.symm
    rw [removesOnly, Bool.and_eq_true, List.all_eq_true]
    refine ⟨fun step hs => ?_, by simpa using hsome⟩
    obtain ⟨name, hname, h⟩ := List.mem_filterMap.1 hs
    obtain ⟨handle, -, rfl⟩ := Summary.removal?_eq_some.1 h
    rfl
  rw [Summary.layerGroups_eq, removalsIn]
  simp [removesOnly_stops, honly, hnames]

namespace Graph

theorem ne_nil_of_mem_teardownOrder {wanted : NameSet} (h : layer ∈ g.teardownOrder wanted) :
    layer ≠ [] := by
  have hne := (List.mem_filter.1 h).2
  simpa using hne

theorem mem_of_mem_teardownOrder {wanted : NameSet} {name : String}
    (h : layer ∈ g.teardownOrder wanted) (hname : name ∈ layer) : name ∈ wanted := by
  obtain ⟨whole, -, rfl⟩ := List.mem_map.1 (List.mem_filter.1 h).1
  simpa [SortedSet.contains] using (List.mem_filter.1 hname).2

/-- **The removals of a plan are the layers of what is outstanding.** -/
theorem removals_teardownPlan (g : Graph) (s : Summary) : removalsIn (g.teardownPlan s).groups =
    g.teardownOrder (.ofList s.outstandingContainers.keys) := by
  have hlayers : removalsIn (g.containerGroups s) =
      g.teardownOrder (.ofList s.outstandingContainers.keys) := by
    rw [removalsIn, containerGroups, List.filter_flatMap, List.map_flatMap]
    refine (List.flatMap_congr fun layer hlayer => ?_).trans (List.flatMap_singleton' _)
    refine removalsIn_layerGroups (ne_nil_of_mem_teardownOrder hlayer) fun name hname => ?_
    have hwanted := SortedSet.mem_ofList.1 (mem_of_mem_teardownOrder hlayer hname)
    obtain ⟨handle, hentry⟩ := Summary.mem_outstandingContainers_keys.1 hwanted
    exact ⟨handle, Summary.created_of_mem_outstandingContainers hentry⟩
  have hdeletions : removesOnly s.deletions = false := by
    refine removesOnly_eq_false fun step hs => ?_
    obtain ⟨path, -, rfl⟩ | ⟨path, -, rfl⟩ :=
      (List.mem_append.1 hs).imp List.mem_map.1 List.mem_map.1 <;> rfl
  have hnetwork : removesOnly (s.outstandingNetwork?.toList.map .deleteNetwork) = false := by
    refine removesOnly_eq_false fun step hs => ?_
    obtain ⟨network, -, rfl⟩ := List.mem_map.1 hs
    rfl
  rw [groups_teardownPlan, removalsIn_filter_isEmpty, removalsIn_append, hlayers]
  simp [removalsIn, hdeletions, hnetwork]

end Graph

/-! ## Runs that succeed -/

namespace Moment

variable {m : Machine} {t : Moment} {exitCode : Int}

/-- Before the main container exits, every container of the task has been created. -/
theorem Reachable.created_of_exited (hg : m.graph.WellFormed) (h : Reachable m t)
    (hexited : (Milestone.exited m.graph.main).ReachedIn t.log) {c : String}
    (hc : c ∈ m.graph.names) : ∃ handle, .containerCreated c handle ∈ t.log := by
  have hlawful := h.lawful hg
  obtain ⟨run, -, hm, hrun⟩ := hlawful.allows_of_reachedIn hexited
  cases run <;> simp only [Step.milestone, reduceCtorEq, Milestone.exited.injEq] at hm
  obtain ⟨rfl, -, hready⟩ := hrun
  exact hlawful.created_of_ready (hlawful.all_ready hg hready hc)

/-- Once the main container has exited, the containers of the task are outstanding. -/
theorem Reachable.outstanding_iff (hg : m.graph.WellFormed) (h : Reachable m t)
    (hexited : (Milestone.exited m.graph.main).ReachedIn t.log) {c : String} :
    c ∈ (Summary.ofEvents t.log).outstandingContainers.keys ↔ c ∈ m.graph.names := by
  constructor
  · exact Graph.mem_names_of_outstanding (fun _ _ => h.mem_names hg) c
  · intro hc
    obtain ⟨handle, hcreated⟩ := h.created_of_exited hg hexited hc
    have hlast := (h.lastIn_iff hg (e := .containerCreated c handle) rfl).2 hcreated
    have hremoved : ¬ (Milestone.removed c).ReachedIn t.log :=
      h.not_reachedIn_of_isTeardown hg (s := .removeContainer c handle) rfl
    exact Summary.mem_outstandingContainers_keys.2
      ⟨handle, Summary.mem_outstandingContainers.2 ⟨hlast, hremoved⟩⟩

/-- The plan of a run that has succeeded removes all containers of the task, layer by layer. -/
theorem Reachable.removals_of_succeeded (hg : m.graph.WellFormed) (h : Reachable m t)
    (hends : Ends m t (.succeeded exitCode)) :
    removalsIn (m.graph.teardownPlan (.ofEvents t.log)).groups =
      m.graph.teardownOrder (.ofList m.graph.names) := by
  have hresult := Machine.next_finished hends.2.2
  have hexited : (Milestone.exited m.graph.main).ReachedIn t.log :=
    (Machine.exists_result?_iff.1 ⟨_, hresult⟩).resolve_left
      (Machine.result?_eq_succeeded.1 hresult).1
  have hnames : (SortedSet.ofList (Summary.ofEvents t.log).outstandingContainers.keys : NameSet) =
      .ofList m.graph.names := by
    refine SortedSet.ext_mem fun c => ?_
    rw [SortedSet.mem_ofList, SortedSet.mem_ofList]
    exact h.outstanding_iff hg hexited
  rw [Graph.removals_teardownPlan, hnames]

end Moment

/-! ## The outline -/

theorem Graph.order_suffix_outline (g : Graph) :
    ("cleanup order:" :: Session.orderLines (g.teardownOrder (.ofList g.names))) <:+ g.outline := by
  have hlines : Session.orderLines (g.teardownOrder (.ofList g.names)) = g.teardownOutline := rfl
  rw [hlines, Graph.outline, List.append_assoc]
  exact (List.suffix_cons "" _).trans (List.suffix_append _ _)

/-- The outline of a session has the outlines of its tasks in it. -/
theorem Session.outline_infix {tasks : List PlannedTask} {task : PlannedTask} (h : task ∈ tasks) :
    task.outline <:+: Session.outline tasks := by
  have htask : "" :: task.outline <:+: tasks.flatMap fun task => "" :: task.outline := by
    rw [List.flatMap_def]
    exact List.infix_of_mem_flatten (List.mem_map.2 ⟨task, h, rfl⟩)
  have hlines := (List.suffix_cons "" task.outline).isInfix.trans htask
  exact hlines.trans (List.suffix_append _ _).isInfix

/-- **What an outline says about the cleanup of a task comes true** in every run that succeeds: the
containers are removed in the groups of the outline. -/
theorem Graph.removals_as_outlined {project : Project} {task : String} {g : Graph}
    (hresolve : Graph.resolve project task = .ok g) {options : Options} {t : Moment}
    {exitCode : Int} (hreach : Moment.Reachable ⟨g, options⟩ t)
    (hends : Moment.Ends ⟨g, options⟩ t (.succeeded exitCode)) :
    removalsIn (g.teardownPlan (.ofEvents t.log)).groups = g.teardownOrder (.ofList g.names) ∧
      ∀ tasks : List PlannedTask, .run ⟨g, options⟩ ∈ tasks →
        ("cleanup order:" ::
          Session.orderLines (removalsIn (g.teardownPlan (.ofEvents t.log)).groups)) <:+:
            Session.outline tasks := by
  have hremovals := hreach.removals_of_succeeded (Graph.wellFormed_of_resolve hresolve) hends
  refine ⟨hremovals, fun tasks htask => ?_⟩
  rw [hremovals]
  exact g.order_suffix_outline.isInfix.trans (Session.outline_infix htask)

/-- The shop is cleared from the till down, as it was told before it opened. -/
theorem Shop.cleared_as_outlined : ∃ t, Moment.Reachable machine t ∧
    Moment.Ends machine t (.succeeded 0) ∧
    removalsIn (graph.teardownPlan (.ofEvents t.log)).groups = [["till"], ["shelf"], ["ladder"]] ∧
    ["cleanup order:", "  1. till", "  2. shelf", "  3. ladder"] <:+:
      Session.outline [.run machine] := by
  obtain ⟨t, ht, -, hends⟩ := Shop.reachable_log
  obtain ⟨hremovals, houtline⟩ := Graph.removals_as_outlined Shop.resolve_project ht hends
  have horder : machine.graph.teardownOrder (.ofList machine.graph.names) =
      [["till"], ["shelf"], ["ladder"]] := by
    decide +kernel
  rw [horder] at hremovals
  have hlines := houtline [.run machine] (List.mem_singleton_self _)
  rw [hremovals] at hlines
  exact ⟨t, ht, hends, hremovals, hlines⟩

end Stevedore
