import Mathlib.Data.List.Nodup
import Stevedore.Proofs.Layers
import Stevedore.Proofs.Outstanding
import Stevedore.Proofs.RunStage

/-!
What the plan that takes a run down does, and in which order.

Each layer of the graph gives two groups, its stops and its removals, and all layers together hold
every container of the graph once. So the steps of a plan are the stops of what still runs and what
a summary lists as left over, in another order (`perm_steps`); that a plan has exactly the steps
that are due follows from what is known of a summary. The order follows from that of the layers:
whatever keeps its place when each layer is replaced by its two groups, when the deletions are put
behind them and when empty groups are dropped, is earlier in the plan as it was in the graph.

`TeardownPlan.TakesDown` puts this together, and `takesDown_teardownPlan` says that every plan for
a history that stays inside its graph is of this kind.
-/

namespace Stevedore

open Relation

/-- Whether the step deletes a temporary file or directory. -/
def Step.isDeletion : Step → Bool
  | deleteFile _ | deleteDirectory _ => true
  | _ => false

/-- A plan that takes down exactly what the events have made and not undone, in an order in which
nobody loses a container that it waits for. -/
structure TeardownPlan.TakesDown (p : TeardownPlan) (events : List Event)
    (waitsFor : String → String → Prop) : Prop where
  /-- There is a step for everything that is due, and for nothing else. -/
  due : ∀ k, k ∈ p.steps.map Step.milestone ↔ k.DueIn events
  /-- No two steps are there for the same thing. -/
  once : (p.steps.map Step.milestone).Nodup
  /-- Handles and spellings are the recorded ones. -/
  recorded : ∀ step ∈ p.steps, step.RecordedIn events
  stop_first : ∀ c handle, .stopContainer c handle ∈ p.steps →
    Earlier p.groups (.stopContainer c handle) (.removeContainer c handle)
  /-- A container is removed before anything is done to those it depends on, also when somebody
  between the two is gone already. -/
  dependents_first : ∀ a b, TransGen waitsFor a b → ∀ handle, ∀ step ∈ p.steps,
    .removeContainer a handle ∈ p.steps → step.container? = some b →
    Earlier p.groups (.removeContainer a handle) step
  deletions_together : ∀ group ∈ p.groups, ∀ step ∈ group, ∀ other ∈ p.steps,
    step.isDeletion → other.isDeletion → other ∈ group
  containers_first : ∀ step ∈ p.steps, ∀ other ∈ p.steps,
    step.container?.isSome → other.isDeletion → Earlier p.groups step other
  network_last : ∀ network, .deleteNetwork network ∈ p.steps →
    p.groups.getLast? = some [.deleteNetwork network]
  nonempty : [] ∉ p.groups

/-! ## The steps of a plan -/

namespace Summary

variable {s : Summary} {name : String} {handle : Handle} {step : Step}

/-- The step that stops a container, if it runs. -/
def stop? (s : Summary) (name : String) : Option Step :=
  if s.isRunning name then (s.created.get? name).map (.stopContainer name) else none

/-- The step that removes a container, if it was created. -/
def removal? (s : Summary) (name : String) : Option Step :=
  (s.created.get? name).map (.removeContainer name)

/-- The steps that stop what is outstanding and runs. -/
def stops (s : Summary) : List Step := s.outstandingContainers.keys.filterMap s.stop?

/-- The steps that delete temporary files and directories. -/
def deletions (s : Summary) : List Step :=
  s.outstandingFiles.map .deleteFile ++ s.outstandingDirectories.map .deleteDirectory

theorem layerGroups_eq (s : Summary) (layer : List String) :
    layerGroups s layer = [layer.filterMap s.stop?, layer.filterMap s.removal?] := by
  unfold layerGroups
  induction layer with
  | nil => rfl
  | cons name layer ih =>
    cases hc : s.created.get? name with
    | none => simpa [hc, stop?, removal?] using ih
    | some handle => by_cases hr : s.isRunning name <;> simpa [hc, hr, stop?, removal?] using ih

theorem stop?_eq_some : s.stop? name = some step ↔
    ∃ handle, s.isRunning name = true ∧ s.created.get? name = some handle ∧
      step = .stopContainer name handle := by
  unfold stop?
  by_cases hr : s.isRunning name <;> simp [hr, eq_comm]

theorem removal?_eq_some : s.removal? name = some step ↔
    ∃ handle, s.created.get? name = some handle ∧ step = .removeContainer name handle := by
  simp [removal?, eq_comm]

/-- Whatever stops or removes a container has its name. -/
theorem container?_of_stop?_or_removal?
    (h : s.stop? name = some step ∨ s.removal? name = some step) :
    step.container? = some name := by
  rcases h with h | h
  · obtain ⟨handle, -, -, rfl⟩ := stop?_eq_some.1 h
    rfl
  · obtain ⟨handle, -, rfl⟩ := removal?_eq_some.1 h
    rfl

theorem mem_layerGroups {layer : List String} : step ∈ (layerGroups s layer).flatten ↔
    ∃ name ∈ layer, s.stop? name = some step ∨ s.removal? name = some step := by
  rw [layerGroups_eq]
  simp only [List.flatten_cons, List.flatten_nil, List.append_nil, List.mem_append,
    List.mem_filterMap, and_or_left, exists_or]

theorem mem_outstandingContainers_keys :
    name ∈ s.outstandingContainers.keys ↔
      ∃ handle, (name, handle) ∈ s.outstandingContainers.entries := by
  simp [SortedMap.keys]

theorem created_of_mem_outstandingContainers
    (h : (name, handle) ∈ s.outstandingContainers.entries) : s.created.get? name = some handle :=
  SortedMap.mem_entries_iff.1 (List.mem_filter.1 h).1

theorem keys_filterMap_removal? (s : Summary) :
    s.outstandingContainers.keys.filterMap s.removal? =
      s.outstandingContainers.entries.map fun e => .removeContainer e.1 e.2 := by
  rw [SortedMap.keys, List.filterMap_map, ← List.filterMap_eq_map]
  refine List.filterMap_congr ?_
  rintro ⟨name, handle⟩ he
  exact removal?_eq_some.2 ⟨handle, created_of_mem_outstandingContainers he, rfl⟩

end Summary

namespace Graph

variable {g : Graph} {s : Summary} {step : Step}

/-- The groups of a plan that take down containers, empty ones included. -/
def containerGroups (g : Graph) (s : Summary) : List (List Step) :=
  (g.teardownOrder (.ofList s.outstandingContainers.keys)).flatMap (layerGroups s)

theorem groups_teardownPlan (g : Graph) (s : Summary) : (g.teardownPlan s).groups =
    (g.containerGroups s ++
      [s.deletions, s.outstandingNetwork?.toList.map .deleteNetwork]).filter (!·.isEmpty) :=
  rfl

theorem steps_teardownPlan (g : Graph) (s : Summary) : (g.teardownPlan s).steps =
    (g.containerGroups s).flatten ++ s.deletions ++
      s.outstandingNetwork?.toList.map .deleteNetwork := by
  rw [TeardownPlan.steps, groups_teardownPlan, List.flatten_filter_not_isEmpty]
  simp

/-- The containers that are taken down are those that are outstanding. -/
theorem perm_teardownOrder (hg : g.WellFormed)
    (hnames : ∀ c ∈ s.outstandingContainers.keys, c ∈ g.names) :
    (g.teardownOrder (.ofList s.outstandingContainers.keys)).flatten.Perm
      s.outstandingContainers.keys := by
  rw [flatten_teardownOrder]
  refine ((perm_flatten_layers hg).filter _).trans ?_
  refine (List.perm_ext_iff_of_nodup (g.nodes.nodup_keys.filter _)
    s.outstandingContainers.nodup_keys).2 ?_
  intro name
  simp only [List.mem_filter, SortedSet.contains, decide_eq_true_eq, SortedSet.mem_ofList]
  exact ⟨fun h => h.2, fun h => ⟨hnames name h, h⟩⟩

/-- Layer by layer, or first all stops and then all removals: the steps are the same. -/
theorem perm_flatten_containerGroups (hg : g.WellFormed)
    (hnames : ∀ c ∈ s.outstandingContainers.keys, c ∈ g.names) :
    (g.containerGroups s).flatten.Perm
      (s.stops ++ s.outstandingContainers.keys.filterMap s.removal?) := by
  have hsplit : ∀ order : List (List String), (order.flatMap (layerGroups s)).flatten =
      order.flatMap fun layer => layer.filterMap s.stop? ++ layer.filterMap s.removal? := by
    intro order
    induction order with
    | nil => rfl
    | cons layer order ih =>
      rw [List.flatMap_cons, List.flatten_append, ih, List.flatMap_cons, Summary.layerGroups_eq]
      simp
  have hmerge : ∀ (f : String → Option Step) (order : List (List String)),
      (order.flatMap fun layer => layer.filterMap f) = order.flatten.filterMap f := by
    intro f order
    rw [List.filterMap_flatten, List.flatMap_def]
  have horder := perm_teardownOrder hg hnames
  rw [containerGroups, hsplit]
  refine (List.flatMap_append_perm _ _ _).symm.trans ?_
  rw [hmerge, hmerge]
  exact (horder.filterMap s.stop?).append (horder.filterMap s.removal?)

/-- The steps of a plan are the stops of what runs and whatever is left over. -/
theorem perm_steps (hg : g.WellFormed)
    (hnames : ∀ c ∈ s.outstandingContainers.keys, c ∈ g.names) :
    (g.teardownPlan s).steps.Perm (s.stops ++ s.leftovers) := by
  have hcontainers := perm_flatten_containerGroups hg hnames
  rw [Summary.keys_filterMap_removal?] at hcontainers
  rw [steps_teardownPlan, Summary.leftovers, Summary.deletions]
  simpa using hcontainers.append_right _

/-! ## The order of the steps -/

/-- Whatever takes down a container is found with it. -/
theorem mem_containerGroups : step ∈ (g.containerGroups s).flatten ↔
    ∃ name ∈ (g.teardownOrder (.ofList s.outstandingContainers.keys)).flatten,
      s.stop? name = some step ∨ s.removal? name = some step := by
  rw [containerGroups, List.mem_flatten]
  constructor
  · rintro ⟨group, hgroup, hstep⟩
    obtain ⟨layer, hlayer, hgroup⟩ := List.mem_flatMap.1 hgroup
    obtain ⟨name, hname, h⟩ := Summary.mem_layerGroups.1 (List.mem_flatten.2 ⟨group, hgroup, hstep⟩)
    exact ⟨name, List.mem_flatten.2 ⟨layer, hlayer, hname⟩, h⟩
  · rintro ⟨name, hname, h⟩
    obtain ⟨layer, hlayer, hname⟩ := List.mem_flatten.1 hname
    obtain ⟨group, hgroup, hstep⟩ := List.mem_flatten.1 (Summary.mem_layerGroups.2 ⟨name, hname, h⟩)
    exact ⟨group, List.mem_flatMap.2 ⟨layer, hlayer, hgroup⟩, hstep⟩

/-- A step about a container is among those that take down containers, and nothing else is. -/
theorem mem_containerGroups_iff (hs : step ∈ (g.teardownPlan s).steps) :
    step ∈ (g.containerGroups s).flatten ↔ step.container?.isSome := by
  constructor
  · intro h
    obtain ⟨name, -, hname⟩ := mem_containerGroups.1 h
    rw [Summary.container?_of_stop?_or_removal? hname]
    rfl
  · intro h
    rw [steps_teardownPlan, List.mem_append, List.mem_append] at hs
    rcases hs with (hs | hs) | hs
    · exact hs
    · obtain ⟨path, -, rfl⟩ | ⟨path, -, rfl⟩ :=
        (List.mem_append.1 hs).imp List.mem_map.1 List.mem_map.1 <;> simp [Step.container?] at h
    · obtain ⟨network, -, rfl⟩ := List.mem_map.1 hs
      simp [Step.container?] at h

theorem isDeletion_iff (hs : step ∈ (g.teardownPlan s).steps) :
    step.isDeletion = true ↔ step ∈ s.deletions := by
  constructor
  · intro h
    rw [steps_teardownPlan, List.mem_append, List.mem_append] at hs
    rcases hs with (hs | hs) | hs
    · obtain ⟨name, -, hname⟩ := mem_containerGroups.1 hs
      have hc := Summary.container?_of_stop?_or_removal? hname
      cases step <;> simp [Step.isDeletion, Step.container?] at h hc
    · exact hs
    · obtain ⟨network, -, rfl⟩ := List.mem_map.1 hs
      simp [Step.isDeletion] at h
  · intro h
    obtain ⟨path, -, rfl⟩ | ⟨path, -, rfl⟩ :=
      (List.mem_append.1 h).imp List.mem_map.1 List.mem_map.1 <;> rfl

/-- Each container is stopped before it is removed. -/
theorem earlier_stop_removal {c : String} {handle : Handle}
    (h : .stopContainer c handle ∈ (g.teardownPlan s).steps) :
    Earlier (g.teardownPlan s).groups (.stopContainer c handle) (.removeContainer c handle) := by
  obtain ⟨name, hname, hstep⟩ := mem_containerGroups.1 ((mem_containerGroups_iff h).2 rfl)
  obtain rfl : c = name := Option.some.inj (Summary.container?_of_stop?_or_removal? hstep)
  have hstop : s.stop? c = some (.stopContainer c handle) := by
    refine hstep.resolve_right fun hr => ?_
    obtain ⟨_, _, hne⟩ := Summary.removal?_eq_some.1 hr
    simp at hne
  have hremoval : s.removal? c = some (.removeContainer c handle) := by
    obtain ⟨handle', -, hcreated, heq⟩ := Summary.stop?_eq_some.1 hstop
    obtain rfl : handle = handle' := by simpa using heq
    exact Summary.removal?_eq_some.2 ⟨handle, hcreated, rfl⟩
  obtain ⟨layer, hlayer, hc⟩ := List.mem_flatten.1 hname
  have hin :
      Earlier (layerGroups s layer) (.stopContainer c handle) (.removeContainer c handle) := by
    rw [Summary.layerGroups_eq]
    exact .pair (List.mem_filterMap.2 ⟨c, hc, hstop⟩) (List.mem_filterMap.2 ⟨c, hc, hremoval⟩)
  exact (hin.of_mem_flatMap hlayer).append_right.filter_isEmpty

/-- A container is removed before anything is done to those it depends on. -/
theorem earlier_removal (hg : g.WellFormed)
    (hnames : ∀ c ∈ s.outstandingContainers.keys, c ∈ g.names) {a b : String} {handle : Handle}
    (hab : TransGen g.WaitsFor a b) (ha : .removeContainer a handle ∈ (g.teardownPlan s).steps)
    (hs : step ∈ (g.teardownPlan s).steps) (hb : step.container? = some b) :
    Earlier (g.teardownPlan s).groups (.removeContainer a handle) step := by
  have hwanted : ∀ {step : Step} {c : String}, step ∈ (g.teardownPlan s).steps →
      step.container? = some c → c ∈ s.outstandingContainers.keys ∧
        (s.stop? c = some step ∨ s.removal? c = some step) := by
    intro step c hs hc
    obtain ⟨name, hname, hstep⟩ :=
      mem_containerGroups.1 ((mem_containerGroups_iff hs).2 (by rw [hc]; rfl))
    rw [Summary.container?_of_stop?_or_removal? hstep] at hc
    obtain rfl := Option.some.inj hc
    exact ⟨(perm_teardownOrder hg hnames).mem_iff.1 hname, hstep⟩
  obtain ⟨hak, hastep⟩ := hwanted ha rfl
  obtain ⟨hbk, hbstep⟩ := hwanted hs hb
  have hlayers := earlier_teardownOrder hg (hnames a hak) hab
    (SortedSet.mem_ofList.2 hak) (SortedSet.mem_ofList.2 hbk)
  have hgroups : Earlier (g.containerGroups s) (.removeContainer a handle) step :=
    hlayers.flatMap (fun layer hl => Summary.mem_layerGroups.2 ⟨a, hl, hastep⟩)
      (fun layer hl => Summary.mem_layerGroups.2 ⟨b, hl, hbstep⟩)
  exact hgroups.append_right.filter_isEmpty

theorem eq_deletions_of_mem {group : List Step} (hgroup : group ∈ (g.teardownPlan s).groups)
    (hs : step ∈ group) (hd : step.isDeletion = true) : group = s.deletions := by
  rw [groups_teardownPlan] at hgroup
  rcases List.mem_append.1 (List.mem_filter.1 hgroup).1 with hgroup | hgroup
  · obtain ⟨name, -, hname⟩ := mem_containerGroups.1 (List.mem_flatten.2 ⟨group, hgroup, hs⟩)
    have hc := Summary.container?_of_stop?_or_removal? hname
    cases step <;> simp [Step.isDeletion, Step.container?] at hd hc
  · rcases List.mem_pair.1 hgroup with rfl | rfl
    · rfl
    · obtain ⟨network, -, rfl⟩ := List.mem_map.1 hs
      simp [Step.isDeletion] at hd

theorem getLast?_groups {network : Network}
    (h : .deleteNetwork network ∈ (g.teardownPlan s).steps) :
    (g.teardownPlan s).groups.getLast? = some [.deleteNetwork network] := by
  rw [steps_teardownPlan, List.mem_append, List.mem_append] at h
  have hnetwork : s.outstandingNetwork? = some network := by
    rcases h with (h | h) | h
    · obtain ⟨name, -, hname⟩ := mem_containerGroups.1 h
      simpa [Step.container?] using Summary.container?_of_stop?_or_removal? hname
    · simp [Summary.deletions] at h
    · simpa using h
  rw [groups_teardownPlan, hnetwork, List.filter_append]
  simp

end Graph

/-! ## What is due -/

namespace Milestone

variable {k : Milestone} {events : List Event}

/-- For whatever is due the events know what a step has to be called. -/
theorem DueIn.exists_step (h : k.DueIn events) :
    ∃ step : Step, step.milestone = k ∧ step.RecordedIn events := by
  have hcreated : ∀ {c : String}, (created c).ReachedIn events →
      ∃ handle, (created c).LastIn (.containerCreated c handle) events := by
    intro c hc
    obtain ⟨e, he⟩ := exists_lastIn.2 hc
    have hk := (List.mem_filter.1 (List.mem_of_getLast? he)).2
    cases e <;> simp only [Event.milestone?, Option.some.injEq, created.injEq, reduceCtorEq,
      decide_eq_true_eq] at hk
    exact ⟨_, hk ▸ he⟩
  cases k with
  | removed c =>
    obtain ⟨handle, hlast⟩ := hcreated h.1
    exact ⟨.removeContainer c handle, rfl, hlast⟩
  | stopped c =>
    obtain ⟨handle, hlast⟩ := hcreated h.1.1
    exact ⟨.stopContainer c handle, rfl, hlast⟩
  | fileDeleted key =>
    obtain ⟨path, hpath, rfl⟩ := h.1
    obtain ⟨first, hkey, hfirst⟩ := Path.exists_firstIn hpath
    exact ⟨.deleteFile first, congrArg fileDeleted hkey, hfirst⟩
  | directoryDeleted key =>
    obtain ⟨path, hpath, rfl⟩ := h.1
    obtain ⟨first, hkey, hfirst⟩ := Path.exists_firstIn hpath
    exact ⟨.deleteDirectory first, congrArg directoryDeleted hkey, hfirst⟩
  | networkDeleted =>
    obtain ⟨e, he⟩ := exists_lastIn.2 h.1
    have hk := (List.mem_filter.1 (List.mem_of_getLast? he)).2
    cases e <;> simp only [Event.milestone?, Option.some.injEq, reduceCtorEq,
      decide_eq_true_eq] at hk
    exact ⟨.deleteNetwork _, rfl, he⟩
  | _ => exact h.elim

end Milestone

namespace Summary

variable {events : List Event} {c : String} {handle : Handle}

theorem isRunning_ofEvents : (ofEvents events).isRunning c = true ↔
    (Milestone.started c).ReachedIn events ∧ ¬ (Milestone.exited c).ReachedIn events ∧
      ¬ (Milestone.stopped c).ReachedIn events := by
  rw [← reached_ofEvents events (.started c), ← reached_ofEvents events (.exited c),
    ← reached_ofEvents events (.stopped c)]
  simp [isRunning, reached, and_assoc]

theorem mem_stops {step : Step} : step ∈ (ofEvents events).stops ↔
    step.command? = none ∧ step.milestone.DueIn events ∧ step.RecordedIn events := by
  rw [stops, List.mem_filterMap]
  constructor
  · rintro ⟨c, hc, hstop⟩
    obtain ⟨handle', hcontainer⟩ := mem_outstandingContainers_keys.1 hc
    obtain ⟨handle, hrunning, hcreated, rfl⟩ := stop?_eq_some.1 hstop
    obtain ⟨hlast, hremoved⟩ := mem_outstandingContainers.1 hcontainer
    exact ⟨rfl, ⟨⟨Milestone.exists_lastIn.1 ⟨_, hlast⟩, hremoved⟩, isRunning_ofEvents.1 hrunning⟩,
      created_get?_ofEvents.1 hcreated⟩
  · rintro ⟨hcommand, hdue, hrecorded⟩
    cases step with
    | stopContainer c handle =>
      obtain ⟨⟨-, hremoved⟩, hrunning⟩ := hdue
      exact ⟨c, mem_outstandingContainers_keys.2
          ⟨handle, mem_outstandingContainers.2 ⟨hrecorded, hremoved⟩⟩,
        stop?_eq_some.2 ⟨handle, isRunning_ofEvents.2 hrunning,
          created_get?_ofEvents.2 hrecorded, rfl⟩⟩
    | removeContainer | deleteFile | deleteDirectory | deleteNetwork =>
      simp [Step.command?] at hcommand
    | _ => exact hdue.elim

theorem nodup_milestone_stops (s : Summary) : (s.stops.map Step.milestone).Nodup := by
  rw [stops, List.map_filterMap]
  refine s.outstandingContainers.nodup_keys.filterMap ?_
  intro c d k hc hd
  obtain ⟨_, hc', rfl⟩ := Option.map_eq_some_iff.1 hc
  obtain ⟨_, hd', heq⟩ := Option.map_eq_some_iff.1 hd
  obtain ⟨_, -, -, rfl⟩ := stop?_eq_some.1 hc'
  obtain ⟨_, -, -, rfl⟩ := stop?_eq_some.1 hd'
  simpa [Step.milestone, eq_comm] using heq

end Summary

namespace Graph

variable {g : Graph} {events : List Event}

theorem mem_names_of_outstanding (hnames : ∀ c handle, .containerCreated c handle ∈ events →
    c ∈ g.names) : ∀ c ∈ (Summary.ofEvents events).outstandingContainers.keys, c ∈ g.names := by
  intro c hc
  obtain ⟨handle, hcontainer⟩ := Summary.mem_outstandingContainers_keys.1 hc
  exact hnames c handle (Summary.mem_outstandingContainers.1 hcontainer).1.mem

/-- The steps of a plan are those that are due, called as they were recorded. -/
theorem mem_steps_teardownPlan (hg : g.WellFormed)
    (hnames : ∀ c handle, .containerCreated c handle ∈ events → c ∈ g.names) {step : Step} :
    step ∈ (g.teardownPlan (.ofEvents events)).steps ↔
      step.milestone.DueIn events ∧ step.RecordedIn events := by
  rw [(perm_steps hg (mem_names_of_outstanding hnames)).mem_iff, List.mem_append,
    Summary.mem_stops, Summary.mem_leftovers]
  cases step.command? <;> simp

theorem nodup_milestone_steps (hg : g.WellFormed)
    (hnames : ∀ c handle, .containerCreated c handle ∈ events → c ∈ g.names) :
    ((g.teardownPlan (.ofEvents events)).steps.map Step.milestone).Nodup := by
  refine ((perm_steps hg (mem_names_of_outstanding hnames)).map _).nodup_iff.2 ?_
  rw [List.map_append, List.nodup_append]
  refine ⟨Summary.nodup_milestone_stops _, Summary.nodup_milestone_leftovers, ?_⟩
  intro k hk k' hk' heq
  obtain ⟨stop, hstop, rfl⟩ := List.mem_map.1 hk
  obtain ⟨step, hstep, rfl⟩ := List.mem_map.1 hk'
  obtain ⟨hnone, hdue, -⟩ := Summary.mem_stops.1 hstop
  obtain ⟨hsome, -, -⟩ := Summary.mem_leftovers.1 hstep
  -- A stop has no command, and no step with one is there to stop a container.
  cases stop <;> simp [Step.command?, Step.milestone, Milestone.DueIn] at hnone hdue
  cases step <;> simp [Step.command?, Step.milestone] at hsome heq

/-- **A plan takes down what is due, in the right order.** -/
theorem takesDown_teardownPlan {project : Project} {task : String}
    (hresolve : Graph.resolve project task = .ok g)
    (hnames : ∀ c handle, .containerCreated c handle ∈ events → c ∈ g.names) :
    (g.teardownPlan (.ofEvents events)).TakesDown events (project.WaitsFor task) := by
  have hg := wellFormed_of_resolve hresolve
  have houtstanding := mem_names_of_outstanding hnames
  refine ⟨?_, nodup_milestone_steps hg hnames, ?_, ?_, ?_, ?_, ?_, ?_, ?_⟩
  · intro k
    constructor
    · intro hk
      obtain ⟨step, hstep, rfl⟩ := List.mem_map.1 hk
      exact ((mem_steps_teardownPlan hg hnames).1 hstep).1
    · intro hdue
      obtain ⟨step, rfl, hrecorded⟩ := hdue.exists_step
      exact List.mem_map_of_mem ((mem_steps_teardownPlan hg hnames).2 ⟨hdue, hrecorded⟩)
  · intro step hstep
    exact ((mem_steps_teardownPlan hg hnames).1 hstep).2
  · intro c handle hstop
    exact earlier_stop_removal hstop
  · intro a b hab handle step hstep hremove hb
    have hlast := ((mem_steps_teardownPlan hg hnames).1 hremove).2
    have ha : a ∈ g.names := hnames a handle (Milestone.LastIn.mem hlast)
    exact earlier_removal hg houtstanding
      (transGen_waitsFor_of_resolve hresolve (mem_names.1 ha) hab) hremove hstep hb
  · intro group hgroup step hstep other hother hs ho
    rw [eq_deletions_of_mem hgroup hstep hs]
    exact (isDeletion_iff hother).1 ho
  · intro step hstep other hother hs ho
    have hcontainer := (mem_containerGroups_iff hstep).2 hs
    have hdeletion := (isDeletion_iff hother).1 ho
    refine (Earlier.append hcontainer ?_).filter_isEmpty
    rw [List.flatten_cons]
    exact List.mem_append_left _ hdeletion
  · intro network hnetwork
    exact getLast?_groups hnetwork
  · intro hempty
    simp [groups_teardownPlan] at hempty

end Graph

namespace Shop

/-- The shop when its till has exited and somebody has taken the shelf away. -/
def halfClosed : List Event :=
  [.networkCreated ⟨"network"⟩,
   .containerCreated "ladder" ⟨"ladder", "ladder"⟩, .containerStarted "ladder",
   .containerCreated "shelf" ⟨"shelf", "shelf"⟩, .containerStarted "shelf",
   .fileCreated "till" ⟨"/tmp/till/passwd"⟩, .directoryCreated "till" ⟨"/tmp/till/home"⟩,
   .containerCreated "till" ⟨"till", "till"⟩, .containerStarted "till",
   .containerExited "till" 0, .containerStopped "shelf", .containerRemoved "shelf"]

theorem mem_names_of_halfClosed (c : String) (handle : Handle)
    (h : .containerCreated c handle ∈ halfClosed) : c ∈ graph.names := by
  have hall : ∀ e ∈ halfClosed, (e.milestone?.bind Milestone.container?).all
      (· ∈ graph.names) = true := by decide
  simpa [Event.milestone?, Milestone.container?] using hall _ h

/-- The till waits for the ladder only because of the shelf, which is gone. -/
theorem till_removed_before_ladder_stopped :
    Earlier (graph.teardownPlan (.ofEvents halfClosed)).groups
      (.removeContainer "till" ⟨"till", "till"⟩)
      (.stopContainer "ladder" ⟨"ladder", "ladder"⟩) := by
  have hshelf : project.WaitsFor "open" "till" "shelf" := .inl ⟨_, rfl, by decide⟩
  have hladder : project.WaitsFor "open" "shelf" "ladder" := .inl ⟨_, rfl, by decide⟩
  exact (Graph.takesDown_teardownPlan resolve_project mem_names_of_halfClosed).dependents_first
    "till" "ladder" (.tail (.single hshelf) hladder) ⟨"till", "till"⟩ _ (by decide) (by decide) rfl

example : (graph.teardownPlan (.ofEvents halfClosed)).groups =
    [[.removeContainer "till" ⟨"till", "till"⟩],
     [.stopContainer "ladder" ⟨"ladder", "ladder"⟩],
     [.removeContainer "ladder" ⟨"ladder", "ladder"⟩],
     [.deleteFile ⟨"/tmp/till/passwd"⟩, .deleteDirectory ⟨"/tmp/till/home"⟩],
     [.deleteNetwork ⟨"network"⟩]] := by decide

end Shop

end Stevedore
