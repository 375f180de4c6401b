import Stevedore.Machine
import Stevedore.Proofs.Teardown
import Stevedore.Proofs.WholeRun

/-!
What a user is told to do by hand, before a plan is carried out and after it.

A plan and its commands are made in two ways, the one from the layers of the graph and the other
from the summary alone, and yet both cover what is left over: there is a command for each step of
the plan, except for those that stop a container before it is removed by force.

Carrying a plan out makes nothing new, so afterwards that is left over whose step did not succeed
(`mem_leftovers_append`). Whether a container was stopped does not matter.
-/

namespace Stevedore

/-- Whether the event tells that something was made which a user may have to remove. -/
def Event.makes : Event → Bool
  | networkCreated _ | containerCreated .. | fileCreated .. | directoryCreated .. => true
  | _ => false

theorem Step.EndsWith.makes {step : Step} {e : Event} (h : step.EndsWith e)
    (hs : step.isTeardown = true) : e.makes = false := by
  rcases h with h | h
  · cases h <;> first | rfl | simp [isTeardown] at hs
  · cases h <;> rfl

/-! ## Events that make nothing -/

section MakesNothing

variable {events more : List Event} {step : Step} (hmore : ∀ e ∈ more, e.makes = false)

theorem Milestone.reachedIn_append {k : Milestone} :
    k.ReachedIn (events ++ more) ↔ k.ReachedIn events ∨ k.ReachedIn more := by
  simp only [ReachedIn, List.mem_append, or_and_right, exists_or]

include hmore

/-- No container is created among them, and no network. -/
theorem Milestone.not_reachedIn_of_makes {k : Milestone}
    (hk : k = network ∨ ∃ c, k = created c) : ¬ k.ReachedIn more := by
  rintro ⟨e, he, hreached⟩
  have hnot := hmore e he
  rcases hk with rfl | ⟨c, rfl⟩ <;> cases e <;>
    simp [Event.milestone?, Event.makes] at hreached hnot

theorem Milestone.lastIn_append {k : Milestone} {e : Event}
    (hk : k = network ∨ ∃ c, k = created c) : k.LastIn e (events ++ more) ↔ k.LastIn e events := by
  have hnone : (more.filter fun e => e.milestone? = some k) = [] := by
    refine List.filter_eq_nil_iff.2 ?_
    intro e he hreached
    exact not_reachedIn_of_makes hmore hk ⟨e, he, of_decide_eq_true hreached⟩
  rw [LastIn, LastIn, List.filter_append, hnone, List.append_nil]

theorem filterMap_file?_append :
    (events ++ more).filterMap Event.file? = events.filterMap Event.file? := by
  rw [List.filterMap_append, List.append_right_eq_self, List.filterMap_eq_nil_iff]
  intro e he
  have hnot := hmore e he
  cases e <;> simp [Event.file?, Event.makes] at hnot ⊢

theorem filterMap_directory?_append :
    (events ++ more).filterMap Event.directory? = events.filterMap Event.directory? := by
  rw [List.filterMap_append, List.append_right_eq_self, List.filterMap_eq_nil_iff]
  intro e he
  have hnot := hmore e he
  cases e <;> simp [Event.directory?, Event.makes] at hnot ⊢

theorem Step.recordedIn_append : step.RecordedIn (events ++ more) ↔ step.RecordedIn events := by
  cases step with
  | stopContainer c | removeContainer c => exact Milestone.lastIn_append hmore (.inr ⟨c, rfl⟩)
  | deleteFile path =>
    rw [RecordedIn, RecordedIn, filterMap_file?_append hmore]
  | deleteDirectory path =>
    rw [RecordedIn, RecordedIn, filterMap_directory?_append hmore]
  | deleteNetwork => exact Milestone.lastIn_append hmore (.inl rfl)
  | _ => rfl

/-- What is still due is what was due and was not done. -/
theorem Step.dueIn_append (hs : step.command?.isSome) :
    step.milestone.DueIn (events ++ more) ↔
      step.milestone.DueIn events ∧ ¬ step.milestone.ReachedIn more := by
  cases step with
  | removeContainer c =>
    have hcreated := Milestone.not_reachedIn_of_makes hmore (.inr ⟨c, rfl⟩)
    simp only [milestone, Milestone.DueIn, Milestone.reachedIn_append]
    tauto
  | deleteFile path =>
    simp only [milestone, Milestone.DueIn, Milestone.reachedIn_append,
      filterMap_file?_append hmore, not_or, and_assoc]
  | deleteDirectory path =>
    simp only [milestone, Milestone.DueIn, Milestone.reachedIn_append,
      filterMap_directory?_append hmore, not_or, and_assoc]
  | deleteNetwork =>
    have hnetwork := Milestone.not_reachedIn_of_makes hmore (.inl rfl)
    simp only [milestone, Milestone.DueIn, Milestone.reachedIn_append]
    tauto
  | _ => simp [command?] at hs

/-- What is still left over is what was left over and was not undone. -/
theorem Summary.mem_leftovers_append : step ∈ (ofEvents (events ++ more)).leftovers ↔
    step ∈ (ofEvents events).leftovers ∧ ¬ step.milestone.ReachedIn more := by
  rw [mem_leftovers, mem_leftovers, Step.recordedIn_append hmore]
  constructor
  · rintro ⟨hcommand, hdue, hrecorded⟩
    obtain ⟨hold, hnot⟩ := (Step.dueIn_append hmore hcommand).1 hdue
    exact ⟨⟨hcommand, hold, hrecorded⟩, hnot⟩
  · rintro ⟨⟨hcommand, hold, hrecorded⟩, hnot⟩
    exact ⟨hcommand, (Step.dueIn_append hmore hcommand).2 ⟨hold, hnot⟩, hrecorded⟩

end MakesNothing

/-! ## How a plan ends -/

/-- Whether these are the events by which the steps of the plan ended, in some order: with success
those that are said to have succeeded, and with failure the others. -/
def TeardownPlan.EndsAs (p : TeardownPlan) (succeeded : Step → Bool) (outcomes : List Event) :
    Prop :=
  ∃ outcome : Step → Event,
    (∀ step ∈ p.steps,
      if succeeded step then step.Succeeds (outcome step) else step.Fails (outcome step)) ∧
    outcomes.Perm (p.steps.map outcome)

namespace TeardownPlan.EndsAs

variable {p : TeardownPlan} {succeeded : Step → Bool} {outcomes : List Event}

/-- Each outcome is the end of a step. -/
theorem exists_step (h : p.EndsAs succeeded outcomes) {e : Event} (he : e ∈ outcomes) :
    ∃ step ∈ p.steps, step.EndsWith e := by
  obtain ⟨outcome, hends, hperm⟩ := h
  obtain ⟨step, hstep, rfl⟩ := List.mem_map.1 (hperm.mem_iff.1 he)
  have hend := hends step hstep
  refine ⟨step, hstep, ?_⟩
  split at hend
  · exact .inl hend
  · exact .inr hend

/-- What the steps were there for is told to have been reached if they succeeded. -/
theorem reachedIn_iff (h : p.EndsAs succeeded outcomes) (honce : (p.steps.map Step.milestone).Nodup)
    {step : Step} (hs : step ∈ p.steps) :
    step.milestone.ReachedIn outcomes ↔ succeeded step = true := by
  obtain ⟨outcome, hends, hperm⟩ := h
  constructor
  · rintro ⟨e, he, hk⟩
    obtain ⟨other, ho, rfl⟩ := List.mem_map.1 (hperm.mem_iff.1 he)
    have hend := hends other ho
    by_cases hsucceeded : succeeded other = true
    · rw [if_pos hsucceeded] at hend
      have heq : other.milestone = step.milestone := Option.some.inj (hend.milestone?.symm.trans hk)
      rwa [← List.inj_on_of_nodup_map honce ho hs heq]
    · rw [if_neg hsucceeded] at hend
      rw [hend.milestone?] at hk
      simp at hk
  · intro hsucceeded
    have hend := hends step hs
    rw [if_pos hsucceeded] at hend
    exact ⟨outcome step, hperm.mem_iff.2 (List.mem_map_of_mem hs), hend.milestone?⟩

end TeardownPlan.EndsAs

/-! ## Commands for steps -/

theorem Summary.commands_eq_nil_iff {events : List Event} :
    (ofEvents events).leftovers.filterMap Step.command? = [] ↔
      (ofEvents events).leftovers = [] := by
  constructor
  · intro h
    refine List.eq_nil_iff_forall_not_mem.2 ?_
    intro step hstep
    have hnone := List.filterMap_eq_nil_iff.1 h step hstep
    have hsome := (mem_leftovers.1 hstep).1
    rw [hnone] at hsome
    simp at hsome
  · intro h
    rw [h, List.filterMap_nil]

theorem ManualCleanup.afterCleanup_eq (events : List Event) :
    afterCleanup events =
      if (Summary.ofEvents events).leftovers = [] then .notRequired
      else .afterCleanupFailure ((Summary.ofEvents events).leftovers.filterMap Step.command?) := by
  rw [afterCleanup, Summary.manualCommands_eq]
  split
  · next h => rw [if_pos (Summary.commands_eq_nil_iff.1 h)]
  · next h => rw [if_neg fun hnil => h (Summary.commands_eq_nil_iff.2 hnil)]

namespace Graph

variable {g : Graph} {events outcomes : List Event} {succeeded : Step → Bool} {step : Step}

/-- What is left over is what the plan takes down, except for what it stops. -/
theorem mem_leftovers_iff (hg : g.WellFormed)
    (hnames : ∀ c handle, .containerCreated c handle ∈ events → c ∈ g.names) :
    step ∈ (Summary.ofEvents events).leftovers ↔
      step.command?.isSome ∧ step ∈ (g.teardownPlan (.ofEvents events)).steps := by
  rw [Summary.mem_leftovers, mem_steps_teardownPlan hg hnames]

/-- There is one command for each step, except for those that stop a container. -/
theorem commands_perm (hg : g.WellFormed)
    (hnames : ∀ c handle, .containerCreated c handle ∈ events → c ∈ g.names) :
    (g.teardownPlan (.ofEvents events)).commands.Perm
      ((g.teardownPlan (.ofEvents events)).steps.filterMap Step.command?) := by
  have hsteps := (perm_steps hg (mem_names_of_outstanding hnames)).filterMap Step.command?
  have hstops : (Summary.ofEvents events).stops.filterMap Step.command? = [] :=
    List.filterMap_eq_nil_iff.2 fun step hstep => (Summary.mem_stops.1 hstep).1
  rw [List.filterMap_append, hstops, List.nil_append, ← Summary.manualCommands_eq] at hsteps
  exact hsteps.symm

/-- Nothing is stopped that is not removed, so without a command there is nothing to do. -/
theorem groups_eq_nil_iff (hg : g.WellFormed)
    (hnames : ∀ c handle, .containerCreated c handle ∈ events → c ∈ g.names) :
    (g.teardownPlan (.ofEvents events)).groups = [] ↔
      (g.teardownPlan (.ofEvents events)).commands = [] := by
  constructor
  · intro h
    have hperm := commands_perm hg hnames
    rw [TeardownPlan.steps, h] at hperm
    exact hperm.eq_nil
  · intro h
    have hleft : (Summary.ofEvents events).leftovers = [] :=
      Summary.commands_eq_nil_iff.1 ((Summary.manualCommands_eq _).symm.trans h)
    have hstops : (Summary.ofEvents events).stops = [] := by
      simp only [Summary.leftovers, List.append_eq_nil_iff, List.map_eq_nil_iff] at hleft
      rw [Summary.stops, SortedMap.keys, hleft.1.1.1]
      rfl
    have hperm := perm_steps hg (mem_names_of_outstanding hnames)
    rw [hstops, hleft] at hperm
    have hempty := List.flatten_eq_nil_iff.1 hperm.eq_nil
    refine List.eq_nil_iff_forall_not_mem.2 ?_
    intro group hgroup
    rw [groups_teardownPlan] at hgroup hempty
    simpa [hempty group hgroup] using (List.mem_filter.1 hgroup).2

/-- **The commands of a plan agree with its steps**, and what a user is told once the steps have
ended is how to make up for those that failed. -/
theorem commands_agree_with_steps {project : Project} {task : String}
    (hresolve : Graph.resolve project task = .ok g)
    (hnames : ∀ c handle, .containerCreated c handle ∈ events → c ∈ g.names) :
    let plan := g.teardownPlan (.ofEvents events)
    plan.commands.Perm (plan.steps.filterMap Step.command?) ∧
      (plan.groups = [] ↔ plan.commands = []) ∧
      ∀ succeeded outcomes, plan.EndsAs succeeded outcomes →
        (ManualCleanup.afterCleanup (events ++ outcomes) = .notRequired ↔
          ∀ step ∈ plan.steps, step.command?.isSome → succeeded step = true) ∧
        ∃ failed : List Step,
          failed.Perm (plan.steps.filter fun step => step.command?.isSome && !succeeded step) ∧
          failed.Pairwise Step.ListedBefore ∧
          (failed ≠ [] → ManualCleanup.afterCleanup (events ++ outcomes) =
            .afterCleanupFailure (failed.filterMap Step.command?)) := by
  intro plan
  have hg := wellFormed_of_resolve hresolve
  have hnodup : (plan.steps.map Step.milestone).Nodup := nodup_milestone_steps hg hnames
  refine ⟨commands_perm hg hnames, groups_eq_nil_iff hg hnames, ?_⟩
  intro succeeded outcomes hends
  have hmore : ∀ e ∈ outcomes, e.makes = false := by
    intro e he
    obtain ⟨step, hstep, hend⟩ := hends.exists_step he
    exact hend.makes (isTeardown_of_mem_teardownPlan hstep)
  have hfailed : ∀ step, step ∈ (Summary.ofEvents (events ++ outcomes)).leftovers ↔
      step ∈ plan.steps.filter fun step => step.command?.isSome && !succeeded step := by
    intro step
    rw [Summary.mem_leftovers_append hmore, Summary.mem_leftovers, List.mem_filter,
      Bool.and_eq_true]
    have hstep : step ∈ plan.steps ↔ step.milestone.DueIn events ∧ step.RecordedIn events :=
      mem_steps_teardownPlan hg hnames
    constructor
    · rintro ⟨⟨hcommand, hdue⟩, hnot⟩
      have hmem := hstep.2 hdue
      rw [hends.reachedIn_iff hnodup hmem] at hnot
      exact ⟨hmem, hcommand, by simpa using hnot⟩
    · rintro ⟨hmem, hcommand, hnot⟩
      refine ⟨⟨hcommand, hstep.1 hmem⟩, ?_⟩
      rw [hends.reachedIn_iff hnodup hmem]
      simpa using hnot
  rw [ManualCleanup.afterCleanup_eq]
  refine ⟨?_, (Summary.ofEvents (events ++ outcomes)).leftovers, ?_, Summary.pairwise_leftovers, ?_⟩
  · have hnil : (Summary.ofEvents (events ++ outcomes)).leftovers = [] ↔
        ∀ step ∈ plan.steps, step.command?.isSome → succeeded step = true := by
      rw [List.eq_nil_iff_forall_not_mem]
      simp only [hfailed, List.mem_filter, Bool.and_eq_true, Bool.not_eq_true', not_and,
        Bool.not_eq_false]
    rw [← hnil]
    split
    · next h => exact iff_of_true rfl h
    · next h => exact iff_of_false nofun h
  · refine (List.perm_ext_iff_of_nodup ?_ ?_).2 hfailed
    · exact Summary.nodup_milestone_leftovers.of_map _
    · exact (hnodup.of_map _).filter _
  · intro hne
    rw [if_neg hne]

end Graph

namespace Shop

/-- Whatever is removed goes, but nothing is stopped and nothing on the disk is deleted. -/
def goes : Step → Bool
  | .stopContainer .. | .deleteFile _ | .deleteDirectory _ => false
  | _ => true

/-- How the steps end then. -/
def closing : List Event :=
  [.networkDeleted ⟨"network"⟩, .directoryDeletionFailed ⟨"/tmp/till/home"⟩ "not empty",
   .fileDeletionFailed ⟨"/tmp/till/passwd"⟩ "not found", .containerRemoved "ladder",
   .containerStopFailed "ladder" "busy", .containerRemoved "till"]

theorem endsAs_closing :
    (graph.teardownPlan (.ofEvents halfClosed)).EndsAs goes closing := by
  refine ⟨fun
    | .stopContainer c _ => .containerStopFailed c "busy"
    | .deleteFile path => .fileDeletionFailed path "not found"
    | .deleteDirectory path => .directoryDeletionFailed path "not empty"
    | step => Prompt.success step, ?_, by decide⟩
  intro step _
  cases step <;> constructor

/-- A user is told about the file and the directory, although the ladder could not be stopped
either. -/
theorem closing_leaves_something :
    ManualCleanup.afterCleanup (halfClosed ++ closing) ≠ .notRequired := by
  intro h
  have hall := ((Graph.commands_agree_with_steps resolve_project mem_names_of_halfClosed).2.2
    goes closing endsAs_closing).1.1 h
  have hgone := hall (.deleteFile ⟨"/tmp/till/passwd"⟩) (by decide) rfl
  simp [goes] at hgone

example : ManualCleanup.afterCleanup (halfClosed ++ closing) =
    .afterCleanupFailure ["rm /tmp/till/passwd", "rm -rf /tmp/till/home"] := by decide

end Shop

end Stevedore
