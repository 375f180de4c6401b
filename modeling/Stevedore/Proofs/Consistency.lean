import Stevedore.Proofs.LeftBehind
import Stevedore.Proofs.Verdict

/-!
What a report says is left, compared with the events in it.

A report puts together what was found out at two moments. If the containers are kept, then the
commands for the user are those of a plan that was made when the run stage ended, and that there is
something to do is taken for granted. If cleanup was run, then the commands are made afterwards.

Both agree with the events, and for the first this needs that nothing is removed before the cleanup:
so a container that was created is still there, and one command at least is left
(`Moment.Reachable.removal_mem_leftovers`). Nothing fails to be removed either, so that the result
stays what it was (`Moment.Reachable.isCleanupFailure`).
-/

namespace Stevedore

variable {m : Machine} {events : List Event} {result : TaskResult} {manual : ManualCleanup}
  {plan : TeardownPlan}

/-- Whether there is something to do because cleanup was not wanted. -/
def ManualCleanup.isForKept : ManualCleanup → Bool
  | afterTaskFailure _ | afterTaskSuccess _ => true
  | notRequired | afterCleanupFailure _ => false

/-- The result of the run stage, if it is over. -/
def Passage.stageResult? (m : Machine) : Passage → Option TaskResult
  | running t => m.result? (.ofEvents t.log)
  | closing result _ _ => some result

/-- Whether what a user is told to do by hand is consistent with the events of the report, and with
the result of the run stage. -/
structure TaskReport.Consistent (m : Machine) (result : TaskResult) (r : TaskReport) : Prop where
  commands : r.manualCleanup.commands = manualCommands (.ofEvents r.events)
  /-- There is a command for each thing that the events tell to be left over, and no other. -/
  outstanding : ∀ command, command ∈ r.manualCleanup.commands ↔ ∃ step : Step,
    step.command? = some command ∧ step.milestone.DueIn r.events ∧ step.RecordedIn r.events
  required : r.manualCleanup.isRequired = true ↔ manualCommands (.ofEvents r.events) ≠ []
  kept : r.manualCleanup.isForKept = true ↔ result ≠ .cancelled ∧ m.policy result = .keep ∧
    ∃ c handle, .containerCreated c handle ∈ r.events
  untouched : r.manualCleanup.isForKept = true →
    ∀ step ∈ startedIn r.events, step.isTeardown = false
  unchanged : r.manualCleanup.isForKept = true → r.result = result

/-! ## Commands -/

/-- A user is told of what is left over, thing by thing. -/
theorem Summary.mem_manualCommands {command : String} :
    command ∈ manualCommands (ofEvents events) ↔ ∃ step : Step,
      step.command? = some command ∧ step.milestone.DueIn events ∧ step.RecordedIn events := by
  rw [manualCommands_eq, List.mem_filterMap]
  constructor
  · rintro ⟨step, hleft, hcommand⟩
    exact ⟨step, hcommand, (mem_leftovers.1 hleft).2⟩
  · rintro ⟨step, hcommand, hdue⟩
    exact ⟨step, mem_leftovers.2 ⟨by rw [hcommand]; rfl, hdue⟩, hcommand⟩

theorem Summary.created_isEmpty_ofEvents : (ofEvents events).created.isEmpty = false ↔
    ∃ c handle, .containerCreated c handle ∈ events := by
  rw [SortedMap.isEmpty, List.isEmpty_eq_false_iff_exists_mem]
  constructor
  · rintro ⟨⟨c, handle⟩, hmem⟩
    exact ⟨c, handle, (created_get?_ofEvents.1 (SortedMap.mem_entries_iff.1 hmem)).mem⟩
  · rintro ⟨c, handle, hmem⟩
    obtain ⟨e, hlast⟩ := Milestone.exists_lastIn.2 ⟨_, hmem, rfl⟩
    obtain ⟨handle', rfl⟩ : ∃ handle', e = .containerCreated c handle' := by
      have hk := of_decide_eq_true (List.mem_filter.1 (List.mem_of_getLast? hlast)).2
      cases e <;> simp only [Event.milestone?, Option.some.injEq, Milestone.created.injEq,
        reduceCtorEq] at hk
      exact ⟨_, by rw [hk]⟩
    exact ⟨(c, handle'), SortedMap.mem_entries_iff.2 (created_get?_ofEvents.2 hlast)⟩

/-! ## The decision -/

namespace Machine

/-- Cleanup is skipped for a reason. -/
theorem kept_of_skip (h : m.cleanup events result = .skip manual) :
    manual.isForKept = true ∧ m.policy result = .keep ∧
      ∃ c handle, .containerCreated c handle ∈ events := by
  unfold cleanup at h
  dsimp only at h
  split at h
  · next hkeep =>
    simp only [Bool.and_eq_true, decide_eq_true_eq, Bool.not_eq_true'] at hkeep
    refine ⟨?_, hkeep.1, Summary.created_isEmpty_ofEvents.1 hkeep.2⟩
    split at h <;> rw [← CleanupDecision.skip.inj h] <;> rfl
  · simp at h

/-- Cleanup is run unless there is such a reason. -/
theorem not_kept_of_run (h : m.cleanup events result = .run plan) :
    ¬ (m.policy result = .keep ∧ ∃ c handle, .containerCreated c handle ∈ events) := by
  rw [← Summary.created_isEmpty_ofEvents]
  rintro ⟨hpolicy, hcreated⟩
  unfold cleanup at h
  simp only [hpolicy, hcreated, decide_true, Bool.not_false, Bool.and_true, if_true] at h
  split at h <;> simp at h

/-- After an interruption cleanup is always wanted. -/
theorem ne_cancelled_of_keep (h : m.policy result = .keep) : result ≠ .cancelled := by
  rintro rfl
  simp [policy] at h

end Machine

/-! ## The events of a run stage -/

theorem Step.Reports.isCleanupFailure {step : Step} {e : Event} (h : step.Reports e) :
    e.isCleanupFailure = false := by
  cases h <;> rfl

theorem Step.EndsWith.isCleanupFailure {step : Step} {e : Event} (h : step.EndsWith e)
    (hs : step.isTeardown = false) : e.isCleanupFailure = false := by
  rcases h with h | h
  · cases h <;> rfl
  · cases h <;> first | rfl | simp [isTeardown] at hs

namespace Moment

variable {t : Moment}

/-- As long as nothing is taken down, nothing fails to be. -/
theorem Reachable.isCleanupFailure (hg : m.graph.WellFormed) (h : Reachable m t) {e : Event}
    (he : e ∈ t.log) : e.isCleanupFailure = false := by
  obtain ⟨before, after, hlog⟩ := List.append_of_mem he
  obtain ⟨u, v, hu, hmove, rfl, hv⟩ := h.posted hlog
  have hlast : ∀ e', u.log ++ [e'] = u.log ++ [e] → e' = e := by
    intro e' heq
    simpa using List.append_cancel_left heq
  cases hmove with
  | work inside =>
    cases inside with
    | announce => exact hlast _ hv ▸ rfl
    | report _ own => exact hlast _ hv ▸ own.isCleanupFailure
    | @finish step _ running own =>
      have hstep := (hu.lawful hg).isTeardown ((hu.lawful hg).started.subset running)
      exact hlast _ hv ▸ own.isCleanupFailure hstep
    | crash => exact hlast _ hv ▸ rfl
  | cancel | pass | dispatch => simp at hv
  | notice | check | stall => exact hlast _ hv ▸ rfl

/-- A container that was created in the run stage is still there when it ends. -/
theorem Reachable.removal_mem_leftovers (hg : m.graph.WellFormed) (h : Reachable m t) {c : String}
    {handle : Handle} (hcreated : .containerCreated c handle ∈ t.log) :
    Step.removeContainer c handle ∈ (Summary.ofEvents t.log).leftovers := by
  rw [Graph.mem_leftovers_iff hg fun _ _ => h.mem_names hg]
  exact ⟨rfl, (h.removal_mem_iff hg).2 hcreated⟩

end Moment

theorem TaskResult.afterCleanup_eq (h : ∀ e ∈ events, e.isCleanupFailure = false) :
    result.afterCleanup events = result := by
  have hnone : (Summary.ofEvents events).cleanupFailures = [] := by
    simpa [Summary.cleanupFailures_ofEvents] using h
  simp [afterCleanup, hnone]

/-! ## Both ends of a run -/

namespace Passage

variable {p : Passage} {r : TaskReport} {s t : Moment} {posted : List Event}
  {ended : List (Step × Event)} {ahead : List (List Step)}

/-- Everything is kept, and the report says so. -/
theorem consistent_of_kept (hg : m.graph.WellFormed) (ht : Moment.Reachable m t)
    (decision : m.cleanup t.log result = .skip manual) :
    (Execution.report m result manual t.log).Consistent m result := by
  obtain ⟨hkept, hpolicy, c, handle, hcreated⟩ := Machine.kept_of_skip decision
  have hcommands : manual.commands = manualCommands (.ofEvents t.log) := by
    rw [Machine.commands_eq_of_skip decision, Summary.manualCommands_eq]
  exact {
    commands := hcommands
    outstanding := fun _ => hcommands ▸ Summary.mem_manualCommands
    required := by
      have hcommand : s!"docker rm --force --volumes {handle.id}" ∈
          manualCommands (.ofEvents t.log) := by
        rw [Summary.manualCommands_eq]
        exact List.mem_filterMap.2 ⟨_, ht.removal_mem_leftovers hg hcreated, rfl⟩
      refine iff_of_true ?_ (List.ne_nil_of_mem hcommand)
      cases manual <;> first | rfl | simp [ManualCleanup.isForKept] at hkept
    kept := iff_of_true hkept
      ⟨Machine.ne_cancelled_of_keep hpolicy, hpolicy, c, handle, hcreated⟩
    untouched := fun _ _ hstep => (ht.lawful hg).isTeardown hstep
    unchanged := fun _ => TaskResult.afterCleanup_eq fun _ he => ht.isCleanupFailure hg he }

/-- Cleanup was run, and the report says what it has left behind. -/
theorem Closing.consistent (h : Closing m s result plan posted ended ahead t) :
    (Execution.report m result (.afterCleanup t.log) t.log).Consistent m result := by
  have hcommands : (ManualCleanup.afterCleanup t.log).commands =
      manualCommands (.ofEvents t.log) := by
    rw [ManualCleanup.commands_afterCleanup, Summary.manualCommands_eq]
  have hkept : (ManualCleanup.afterCleanup t.log).isForKept = false := by
    unfold ManualCleanup.afterCleanup
    split <;> rfl
  have hnever : (Execution.report m result (.afterCleanup t.log) t.log).manualCleanup.isForKept
      ≠ true := by
    rw [Execution.report, hkept]
    exact Bool.false_ne_true
  exact {
    commands := hcommands
    outstanding := fun _ => hcommands ▸ Summary.mem_manualCommands
    required := by
      simp only [Execution.report, ManualCleanup.afterCleanup]
      split
      · next hnil => simp [hnil, ManualCleanup.isRequired]
      · next hne => exact iff_of_true rfl hne
    kept := by
      refine iff_of_false hnever ?_
      rintro ⟨-, hpolicy, c, handle, hcreated⟩
      refine Machine.not_kept_of_run h.decision ⟨hpolicy, c, handle, ?_⟩
      -- Cleanup creates no container, so this one was there before.
      rw [Execution.report, h.tally.log_eq, List.mem_append] at hcreated
      refine hcreated.resolve_right fun hposted => ?_
      have hmakes := h.tally.makes h.isTeardown _ hposted
      simp [Event.makes] at hmakes
    untouched := fun hkept => absurd hkept hnever
    unchanged := fun hkept => absurd hkept hnever }

/-- **A report is consistent with its events**, whatever the steps tell, in whatever order, and
whenever the run is interrupted: the commands in it are those for what the events tell to be left,
a user is told that something is to be done exactly if there is a command, and that the containers
were kept exactly if this was wanted and there are some. Then nothing was taken down, and the result
is the one of the run stage. -/
theorem consistent_of_concludes {project : Project} {task : String}
    (hresolve : Graph.resolve project task = .ok m.graph) (hreach : Reachable m p)
    (hconcludes : Concludes m p r) :
    ∃ result, p.stageResult? m = some result ∧ r.Consistent m result := by
  have hg := Graph.wellFormed_of_resolve hresolve
  have hknown := hreach.known
  cases hconcludes with
  | @kept t result manual ends decision =>
    cases hknown with
    | running reachable =>
      exact ⟨result, Machine.next_finished ends.2.2, consistent_of_kept hg reachable decision⟩
  | @cleaned t result idle =>
    cases hknown with
    | closing since => exact ⟨result, rfl, since.consistent⟩

end Passage

/-! ## A shop that is kept -/

namespace Shop

/-- Opening the shop for good. -/
def keeping : Machine := { machine with options.afterSuccess := .keep }

/-- The shop stays open, and the user is told how to close it. -/
theorem shop_is_kept : ∃ r : TaskReport, r.result = .succeeded 0 ∧
    r.manualCleanup.isForKept = true ∧ r.Consistent keeping (.succeeded 0) := by
  have hends : (Execution.run Prompt.surroundings Prompt.start keeping keeping.graph.roundLimit
      ()).endsWith (fun r _ => r.result = .succeeded 0 ∧ r.manualCleanup.isForKept = true) =
        true := by
    decide +kernel
  obtain ⟨r, _, hrun, hseen⟩ := Course.exists_ended hends
  obtain ⟨hresult, hkept⟩ := of_decide_eq_true hseen
  obtain ⟨p, hp, hr⟩ := Passage.exists_passage_of_run Prompt.orderly_start hrun
  obtain ⟨result, -, hconsistent⟩ :=
    Passage.consistent_of_concludes (m := keeping) resolve_project hp hr
  obtain rfl : result = .succeeded 0 := (hconsistent.unchanged hkept).symm.trans hresult
  exact ⟨r, hresult, hkept, hconsistent⟩

end Shop

end Stevedore
