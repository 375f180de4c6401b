import Stevedore.Proofs.Gating
import Stevedore.Proofs.ManualCommands

/-!
When something is left behind by a run that counts as a success.

Two verdicts are given after cleanup. What the user has to remove is what is left over. Whether a
task that succeeded has failed after all depends on the failures that the cleanup has told of. A
step that fails to take something down counts for both. A step that is broken off counts for the
first one only: what is posted in its place tells that the run has failed, which nobody asks any
more, and not that the cleanup has.

So the two verdicts agree unless a step that removes something was broken off. Then a run may be
reported as a success although the user is told what is left to remove
(`afterCleanupFailure_iff_broken_off`).
-/

namespace Stevedore

variable {m : Machine} {step other : Step} {e : Event} {events : List Event}

/-! ## What tells of a failure -/

theorem Step.Fails.isCleanupFailure (h : step.Fails e) (hs : step.isTeardown = true) :
    e.isCleanupFailure = true := by
  cases h <;> first | rfl | simp [isTeardown] at hs

theorem Step.text_of_crashEvent_eq
    (h : Execution.crashEvent step = Execution.crashEvent other) : step.text = other.text := by
  simp only [Execution.crashEvent, Event.executionFailed.injEq] at h
  have hletters := congrArg String.toList h
  simp only [toString, String.toList_append, List.append_cancel_left_eq,
    List.append_cancel_right_eq] at hletters
  exact String.toList_inj.1 hletters

/-- Whoever is told by the same words as a step that removes something removes something too. -/
theorem Step.command?_of_text_eq (h : step.text = other.text) (hs : step.isTeardown = true)
    (ho : other.command?.isSome) : step.command?.isSome := by
  cases step with
  | stopContainer c handle =>
    unfold text at h
    cases other with
    | removeContainer | deleteFile | deleteDirectory | deleteNetwork =>
      have hletters := congrArg String.toList h
      simp [toString] at hletters
    | _ => simp [command?] at ho
  | removeContainer | deleteFile | deleteDirectory | deleteNetwork => rfl
  | _ => simp [isTeardown] at hs

/-- What succeeded remains a success if the cleanup has told of no failure. -/
theorem TaskResult.isSuccess_afterCleanup {result : TaskResult} :
    (result.afterCleanup events).isSuccess = true ↔
      result.isSuccess = true ∧ ∀ e ∈ events, e.isCleanupFailure = false := by
  have hnone : (Summary.ofEvents events).cleanupFailures = [] ↔
      ∀ e ∈ events, e.isCleanupFailure = false := by
    simp [Summary.cleanupFailures_ofEvents]
  unfold afterCleanup
  rw [← hnone]
  by_cases h : (Summary.ofEvents events).cleanupFailures = []
  · simp [h]
  · cases result <;> simp [h, isSuccess]

/-- A user is told of a failed cleanup if anything is left over. -/
theorem ManualCleanup.exists_commands_iff :
    (∃ commands, afterCleanup events = .afterCleanupFailure commands) ↔
      ∃ step, step ∈ (Summary.ofEvents events).leftovers := by
  rw [afterCleanup_eq]
  split
  · next hnil => simp [hnil]
  · next hne => exact iff_of_true ⟨_, rfl⟩ (List.exists_mem_of_ne_nil _ hne)

namespace Passage

variable {p : Passage} {r : TaskReport} {s t : Moment} {result : TaskResult} {plan : TeardownPlan}
  {steps : List Step} {before posted : List Event} {ended : List (Step × Event)}
  {ahead : List (List Step)}

/-! ## What a cleanup brings about -/

theorem IsEnd.makes (h : IsEnd step e) (hs : step.isTeardown = true) : e.makes = false := by
  rcases h with h | rfl
  · exact h.makes hs
  · rfl

/-- Whoever has told that something was reached has succeeded, and was there for this. -/
theorem IsEnd.of_milestone? {k : Milestone} (h : IsEnd step e) (hk : e.milestone? = some k) :
    step.Succeeds e ∧ step.milestone = k := by
  rcases h with (h | h) | rfl
  · exact ⟨h, Option.some.inj (h.milestone?.symm.trans hk)⟩
  · rw [h.milestone?] at hk
    simp at hk
  · simp [Execution.crashEvent, Event.milestone?] at hk

namespace Tally

/-- Cleanup makes nothing that would have to be taken down. -/
theorem makes (h : Tally steps before posted ended ahead t)
    (hteardown : ∀ step ∈ steps, step.isTeardown = true) : ∀ e ∈ posted, e.makes = false := by
  intro e he
  rcases h.mem_posted.1 he with ⟨step, -, rfl⟩ | ⟨step, hended⟩
  · rfl
  · exact (h.ends _ hended).makes (hteardown step (h.mem_of_ended hended))

/-- What a step was there for is told to have been reached if the step has succeeded. -/
theorem reachedIn_iff (h : Tally steps before posted ended ahead t)
    (honce : (steps.map Step.milestone).Nodup) (hs : (step, e) ∈ ended) :
    step.milestone.ReachedIn posted ↔ step.Succeeds e := by
  constructor
  · rintro ⟨told, htold, hk⟩
    rcases h.mem_posted.1 htold with ⟨other, -, rfl⟩ | ⟨other, hother⟩
    · simp [Event.milestone?] at hk
    obtain ⟨hsucceeds, hmilestone⟩ := (h.ends _ hother).of_milestone? hk
    -- Only one step is there for this, and it has ended only once.
    have hnodup : ((ended.map Prod.fst).map Step.milestone).Nodup := by
      refine List.Nodup.sublist ?_ ((h.shared.map Step.milestone).nodup_iff.2 honce)
      exact (List.sublist_append_left _ _).map _
    rw [List.map_map] at hnodup
    obtain ⟨rfl, rfl⟩ := Prod.mk.inj (List.inj_on_of_nodup_map hnodup hother hs hmilestone)
    exact hsucceeds
  · intro hsucceeds
    exact ⟨e, h.mem_posted.2 (.inr ⟨step, hs⟩), hsucceeds.milestone?⟩

end Tally

section Cleanup

variable (hg : m.graph.WellFormed) (h : Closing m s result plan posted ended ahead t)

include h

theorem Closing.isTeardown : ∀ step ∈ plan.steps, step.isTeardown = true :=
  fun _ => Machine.isTeardown_of_mem_plan h.decision

include hg

theorem Closing.nodup_milestone_steps : (plan.steps.map Step.milestone).Nodup := by
  rw [Machine.plan_eq h.decision]
  exact Graph.nodup_milestone_steps hg fun _ _ => h.reachable.mem_names hg

/-- What is left over are the steps of the plan that have not been done. -/
theorem Closing.mem_leftovers_iff : step ∈ (Summary.ofEvents t.log).leftovers ↔
    (step.command?.isSome ∧ step ∈ plan.steps) ∧ ¬ step.milestone.ReachedIn posted := by
  rw [h.tally.log_eq, Summary.mem_leftovers_append (h.tally.makes h.isTeardown),
    Graph.mem_leftovers_iff hg fun _ _ => h.reachable.mem_names hg, Machine.plan_eq h.decision]

end Cleanup

/-- If nobody has told of a failure, then whatever is left over in the end was broken off. -/
theorem Closing.broken_off_of_mem_leftovers (hg : m.graph.WellFormed)
    (h : Closing m s result plan posted ended [] t) (hi : t.IsIdle)
    (hquiet : ∀ e ∈ posted, e.isCleanupFailure = false)
    (hs : step ∈ (Summary.ofEvents t.log).leftovers) :
    .stepStarting step ∈ posted ∧ Execution.crashEvent step ∈ posted := by
  obtain ⟨⟨-, hmem⟩, hnot⟩ := (h.mem_leftovers_iff hg).1 hs
  have hended := (h.tally.perm_ended hi).mem_iff.2 hmem
  obtain ⟨⟨_, e⟩, hend, rfl⟩ := List.mem_map.1 hended
  have hposted : e ∈ posted := h.tally.mem_posted.2 (.inr ⟨_, hend⟩)
  refine ⟨h.tally.mem_posted.2 (.inl ⟨_, List.mem_append_left _ hended, rfl⟩), ?_⟩
  rcases h.tally.ends _ hend with (hsucceeds | hfails) | hcrash
  · exact absurd ((h.tally.reachedIn_iff (h.nodup_milestone_steps hg) hend).2 hsucceeds) hnot
  · have hfailure := hfails.isCleanupFailure (h.isTeardown _ hmem)
    rw [hquiet e hposted] at hfailure
    simp at hfailure
  · rwa [← hcrash]

/-- If something that removes was broken off, then something is left over. -/
theorem Closing.exists_mem_leftovers (hg : m.graph.WellFormed)
    (h : Closing m s result plan posted ended ahead t) (hs : step.command?.isSome)
    (hcrash : Execution.crashEvent step ∈ posted) :
    ∃ other, other ∈ (Summary.ofEvents t.log).leftovers := by
  rcases h.tally.mem_posted.1 hcrash with ⟨_, -, heq⟩ | ⟨other, hother⟩
  · simp [Execution.crashEvent] at heq
  have hmem := h.tally.mem_of_ended hother
  -- The words do not tell which step it was, but they tell that it removes something.
  rcases h.tally.ends _ hother with hend | heq
  · rcases hend with hend | hend <;> cases hend
  have htext := Step.text_of_crashEvent_eq heq
  refine ⟨other, (h.mem_leftovers_iff hg).2 ⟨⟨?_, hmem⟩, ?_⟩⟩
  · exact Step.command?_of_text_eq htext.symm (h.isTeardown other hmem) hs
  · rw [h.tally.reachedIn_iff (h.nodup_milestone_steps hg) hother]
    intro hsucceeds
    cases hsucceeds

/-- A run stage that ends with success has not failed. -/
theorem not_failedIn_of_isSuccess (hends : Moment.Ends m t result)
    (hsuccess : result.isSuccess = true) : ¬ FailedIn t.log := by
  cases result with
  | succeeded => exact (Machine.result?_eq_succeeded.1 (Machine.next_finished hends.2.2)).1
  | failed | cancelled => simp [TaskResult.isSuccess] at hsuccess

/-- A user who is not cleaned up after is not told that the cleanup has failed. -/
theorem ne_afterCleanupFailure_of_skip {manual : ManualCleanup} {commands : List String}
    (h : m.cleanup events result = .skip manual) : manual ≠ .afterCleanupFailure commands := by
  unfold Machine.cleanup at h
  dsimp only at h
  rintro rfl
  split at h
  · split at h <;> simp at h
  · simp at h

/-- **Something left behind goes unnoticed only if it was broken off.** If a run is reported as a
success, then the user is told to remove what cleanup has left behind exactly if a step that removes
something was broken off. In every other run that leaves something behind after cleanup the result
is no success. -/
theorem afterCleanupFailure_iff_broken_off {project : Project} {task : String}
    (hresolve : Graph.resolve project task = .ok m.graph) (hreach : Reachable m p)
    (hconcludes : Concludes m p r) (hsuccess : r.result.isSuccess = true) :
    (∃ commands, r.manualCleanup = .afterCleanupFailure commands) ↔
      ∃ step : Step, step.command?.isSome ∧ .stepStarting step ∈ r.events ∧
        Execution.crashEvent step ∈ r.events := by
  have hg := Graph.wellFormed_of_resolve hresolve
  have hknown := hreach.known
  cases hconcludes with
  | @kept t result manual ends decision =>
    obtain ⟨hsuccess, -⟩ := TaskResult.isSuccess_afterCleanup.1 hsuccess
    refine iff_of_false ?_ ?_
    · rintro ⟨commands, hmanual⟩
      exact ne_afterCleanupFailure_of_skip decision hmanual
    · rintro ⟨step, -, -, hcrash⟩
      exact not_failedIn_of_isSuccess ends hsuccess ⟨_, hcrash, rfl⟩
  | @cleaned t result idle =>
    obtain ⟨hsuccess, hquiet⟩ := TaskResult.isSuccess_afterCleanup.1 hsuccess
    cases hknown with
    | @closing s _ _ plan posted ended _ since =>
      have hsub : posted ⊆ t.log := by
        rw [since.tally.log_eq]
        exact List.subset_append_right _ _
      constructor
      · intro hmanual
        obtain ⟨step, hstep⟩ := ManualCleanup.exists_commands_iff.1 hmanual
        obtain ⟨hstarted, hcrash⟩ := since.broken_off_of_mem_leftovers hg idle
          (fun e he => hquiet e (hsub he)) hstep
        exact ⟨step, (Summary.mem_leftovers.1 hstep).1, hsub hstarted, hsub hcrash⟩
      · rintro ⟨step, hcommand, -, hcrash⟩
        have hposted : Execution.crashEvent step ∈ posted := by
          have hlog : Execution.crashEvent step ∈ t.log := hcrash
          rw [since.tally.log_eq, List.mem_append] at hlog
          refine hlog.resolve_left fun hbefore => ?_
          exact not_failedIn_of_isSuccess since.ends hsuccess ⟨_, hbefore, rfl⟩
        obtain ⟨other, hother⟩ := since.exists_mem_leftovers hg hcommand hposted
        exact ManualCleanup.exists_commands_iff.2 ⟨other, hother⟩

end Passage

/-! ## Two runs to look at -/

/-- Steps succeed when they are begun, except for some that are broken off. -/
def Prompt.breaking (broken : Step → Bool) : Beginning Unit := fun stage step s =>
  if broken step then (s, .ended .crashed) else start stage step s

theorem Prompt.orderly_breaking (broken : Step → Bool) : (breaking broken).Orderly := by
  intro stage step s
  unfold breaking
  split
  · exact ⟨[], (List.append_nil _).symm, by simp [Step.Pauses, Step.Tells]⟩
  · exact orderly_start stage step s

namespace Shop

/-- How the shop opens and closes if these steps are broken off. -/
def breaking (broken : Step → Bool) : Course Unit TaskReport :=
  Execution.run Prompt.surroundings (Prompt.breaking broken) machine machine.graph.roundLimit ()

theorem exists_passage {broken : Step → Bool} {seen : TaskReport → Bool}
    (h : (breaking broken).endsWith (fun r _ => seen r) = true) :
    ∃ p r, Passage.Reachable machine p ∧ Passage.Concludes machine p r ∧ seen r = true := by
  obtain ⟨r, _, hrun, hseen⟩ := Course.exists_ended h
  obtain ⟨p, hp, hr⟩ := Passage.exists_passage_of_run (Prompt.orderly_breaking broken) hrun
  exact ⟨p, r, hp, hr, hseen⟩

/-- Nothing is left behind if the stop of the ladder is broken off. -/
theorem nothing_left_without_stop : ∃ p r, Passage.Reachable machine p ∧
    Passage.Concludes machine p r ∧ r.result = .succeeded 0 ∧
    Execution.crashEvent (.stopContainer "ladder" ⟨"ladder", "ladder"⟩) ∈ r.events ∧
    ¬ ∃ commands, r.manualCleanup = .afterCleanupFailure commands := by
  have hends : (breaking (· = .stopContainer "ladder" ⟨"ladder", "ladder"⟩)).endsWith (fun r _ =>
      r.result = .succeeded 0 ∧
      Execution.crashEvent (.stopContainer "ladder" ⟨"ladder", "ladder"⟩) ∈ r.events ∧
      ∀ step ∈ startedIn r.events, step.command?.isSome →
        Execution.crashEvent step ∉ r.events) = true := by
    decide +kernel
  obtain ⟨p, r, hp, hr, hseen⟩ := exists_passage hends
  obtain ⟨hresult, hcrash, hnone⟩ := of_decide_eq_true hseen
  refine ⟨p, r, hp, hr, hresult, hcrash, ?_⟩
  have hsuccess : r.result.isSuccess = true := by rw [hresult]; rfl
  rw [Passage.afterCleanupFailure_iff_broken_off resolve_project hp hr hsuccess]
  rintro ⟨step, hcommand, hstarted, hbroken⟩
  exact hnone step (mem_startedIn.2 hstarted) hcommand hbroken

/-- The ladder is left behind by a run that is reported as a success. -/
theorem ladder_left_behind : ∃ p r, Passage.Reachable machine p ∧ Passage.Concludes machine p r ∧
    r.result = .succeeded 0 ∧
    r.manualCleanup = .afterCleanupFailure ["docker rm --force --volumes ladder"] := by
  have hends : (breaking (· = .removeContainer "ladder" ⟨"ladder", "ladder"⟩)).endsWith (fun r _ =>
      r.result = .succeeded 0 ∧
      r.manualCleanup = .afterCleanupFailure ["docker rm --force --volumes ladder"]) = true := by
    decide +kernel
  obtain ⟨p, r, hp, hr, hseen⟩ := exists_passage hends
  obtain ⟨hresult, hmanual⟩ := of_decide_eq_true hseen
  exact ⟨p, r, hp, hr, hresult, hmanual⟩

end Shop

end Stevedore
