import Stevedore.Proofs.Consistency

/-!
What a user is told of the failures of a run.

Three things have to fit together that are written down apart: which events make a task fail, which
are failures of the cleanup, and which of them there are words for. There are words exactly for the
events of the first two kinds, and no event is of both (`Event.isSome_failureMessage?`,
`Event.not_both_failures`).

Besides, two moments have to fit together. The result is found out when the run stage is over, and
why it is no success is looked up when the cleanup is over too. By then more failures may have been
posted. But the one that counts is the first, and this is in the run stage already
(`Machine.failureMessage?_append`).
-/

namespace Stevedore

variable {m : Machine} {e : Event} {events stage posted : List Event} {result : TaskResult}

/-! ## Kinds of events -/

namespace Event

/-- There are words for failures, and for nothing else. -/
theorem isSome_failureMessage? (options : Options) (e : Event) :
    (e.failureMessage? options).isSome = (e.isTaskFailure || e.isCleanupFailure) := by
  cases e <;> rfl

theorem not_both_failures (e : Event) : (e.isTaskFailure && e.isCleanupFailure) = false := by
  cases e <;> rfl

end Event

namespace Summary

/-- The failure that is remembered is the first one. -/
theorem firstFailure_ofEvents (events : List Event) :
    (ofEvents events).firstFailure = events.find? Event.isTaskFailure := by
  induction events using ofEvents_induction with
  | nil => rfl
  | snoc events e s ih =>
    rw [note, firstFailure_noteState, List.find?_append, ← ih]
    cases he : e.isTaskFailure <;> simp [noteFailure, he]

end Summary

/-- The first event that makes the task fail, if there is any. -/
theorem exists_find?_of_failedIn (h : FailedIn events) :
    ∃ e, events.find? Event.isTaskFailure = some e ∧ e ∈ events ∧ e.isTaskFailure = true := by
  obtain ⟨e, he⟩ := Option.isSome_iff_exists.1 (List.find?_isSome.2 h)
  exact ⟨e, he, List.mem_of_find?_eq_some he, List.find?_some he⟩

/-! ## The messages -/

namespace Machine

/-- One message for each failure of the cleanup, in the order of the events. -/
theorem map_some_cleanupFailureMessages (m : Machine) (events : List Event) :
    (m.cleanupFailureMessages events).map some =
      (events.filter Event.isCleanupFailure).map (·.failureMessage? m.options) := by
  rw [cleanupFailureMessages, Summary.cleanupFailures_ofEvents]
  induction events with
  | nil => rfl
  | cons e events ih =>
    rw [List.filter_cons]
    split
    · next he =>
      obtain ⟨message, hmessage⟩ := Option.isSome_iff_exists.1
        ((Event.isSome_failureMessage? m.options e).trans (by rw [he, Bool.or_true]))
      rw [List.filterMap_cons_some hmessage, List.map_cons, List.map_cons, ih, hmessage]
    · exact ih

/-- A failure is explained by the first event that makes the task fail. -/
theorem failureMessage?_failed (m : Machine) (events : List Event) :
    m.failureMessage? events .failed =
      (events.find? Event.isTaskFailure).bind (·.failureMessage? m.options) := by
  rw [failureMessage?, Summary.firstFailure_ofEvents]

/-- What is posted after the run stage does not change why it is no success. -/
theorem failureMessage?_append (h : m.result? (.ofEvents stage) = some result)
    (posted : List Event) :
    m.failureMessage? (stage ++ posted) result = m.failureMessage? stage result := by
  cases result with
  | succeeded | cancelled => rfl
  | failed =>
    obtain ⟨e, he, -⟩ := exists_find?_of_failedIn (result?_eq_failed.1 h).2
    rw [failureMessage?_failed, failureMessage?_failed, List.find?_append, he, Option.some_or]

/-- There is something to explain exactly if the run stage was no success. -/
theorem isSome_failureMessage? (h : m.result? (.ofEvents stage) = some result) :
    (m.failureMessage? stage result).isSome = !result.isSuccess := by
  cases result with
  | succeeded | cancelled => rfl
  | failed =>
    obtain ⟨e, he, -, hfailure⟩ := exists_find?_of_failedIn (result?_eq_failed.1 h).2
    rw [failureMessage?_failed, he, Option.bind_some, Event.isSome_failureMessage?, hfailure]
    rfl

end Machine

/-! ## The report -/

/-- Whether a report explains the result of a run stage with these events. -/
structure TaskReport.Explains (m : Machine) (stage : List Event) (result : TaskResult)
    (r : TaskReport) : Prop where
  /-- The events of the run stage come first. -/
  grown : stage <+: r.events
  present : r.failureMessage.isSome = !result.isSuccess
  /-- A failure is explained by the first event that makes the task fail. -/
  failed : result = .failed → ∃ e ∈ stage, r.events.find? Event.isTaskFailure = some e ∧
    r.failureMessage = e.failureMessage? m.options
  cancelled : result = .cancelled → .interrupted ∈ stage ∧
    r.failureMessage = Event.interrupted.failureMessage? m.options
  /-- Whatever the cleanup had posted, the explanation would be the same. -/
  unchanged : ∀ posted, m.failureMessage? (stage ++ posted) result = r.failureMessage
  /-- There is one message for each failure of the cleanup, in the order of the events. -/
  cleanup : r.cleanupFailureMessages.map some =
    (r.events.filter Event.isCleanupFailure).map (·.failureMessage? m.options)

/-- A report on more events than those of the run stage explains its result. -/
theorem Machine.explains_report (h : m.result? (.ofEvents stage) = some result)
    (manual : ManualCleanup) (posted : List Event) :
    (Execution.report m result manual (stage ++ posted)).Explains m stage result where
  grown := List.prefix_append stage posted
  present := by
    rw [Execution.report, failureMessage?_append h]
    exact isSome_failureMessage? h
  failed := by
    rintro rfl
    obtain ⟨e, he, hmem, -⟩ := exists_find?_of_failedIn (result?_eq_failed.1 h).2
    have hfirst : (stage ++ posted).find? Event.isTaskFailure = some e := by
      rw [List.find?_append, he, Option.some_or]
    refine ⟨e, hmem, hfirst, ?_⟩
    rw [Execution.report, failureMessage?_failed, hfirst, Option.bind_some]
  cancelled := by
    rintro rfl
    exact ⟨result?_eq_cancelled.1 h, rfl⟩
  unchanged posted' := by
    rw [Execution.report, failureMessage?_append h, failureMessage?_append h]
  cleanup := m.map_some_cleanupFailureMessages (stage ++ posted)

namespace Passage

variable {p : Passage} {r : TaskReport}

/-- **The messages of a report match its result.** There are words exactly for the failures of the
task and of the cleanup. At the end of each run the report explains the result that the run stage
had in the moment in which it ended, whatever was posted afterwards. -/
theorem explains_of_concludes (hreach : Reachable m p) (hconcludes : Concludes m p r) :
    (∀ (options : Options) (e : Event),
      (e.failureMessage? options).isSome = (e.isTaskFailure || e.isCleanupFailure) ∧
        (e.isTaskFailure && e.isCleanupFailure) = false) ∧
    ∃ (t : Moment) (result : TaskResult), Moment.Reachable m t ∧ Moment.Ends m t result ∧
      p.stageResult? m = some result ∧ r.Explains m t.log result := by
  refine ⟨fun options e => ⟨e.isSome_failureMessage? options, e.not_both_failures⟩, ?_⟩
  have hknown := hreach.known
  cases hconcludes with
  | @kept t result manual ends decision =>
    cases hknown with
    | running reachable =>
      have hresult := Machine.next_finished ends.2.2
      have hexplains := Machine.explains_report hresult manual []
      rw [List.append_nil] at hexplains
      exact ⟨t, result, reachable, ends, hresult, hexplains⟩
  | @cleaned t result idle =>
    cases hknown with
    | @closing s _ _ plan posted ended _ since =>
      have hexplains := Machine.explains_report (Machine.next_finished since.ends.2.2)
        (.afterCleanup t.log) posted
      rw [← since.tally.log_eq] at hexplains
      exact ⟨s, result, since.reachable, since.ends, rfl, hexplains⟩

end Passage

/-! ## A shop in the rain -/

namespace Prompt

/-- Every step ends when it is begun, as it is said to. -/
def ending (last : Step → Event) : Beginning Unit := fun _ step s =>
  (surroundings.post (last step) s, .ended .finished)

theorem orderly_ending {last : Step → Event} (h : ∀ step : Step, step.EndsWith (last step)) :
    (ending last).Orderly := fun _ step _ => ⟨[last step], rfl, [], last step, rfl, by simp, h step⟩

end Prompt

namespace Shop

/-- It rains on the till, and the ladder is too wet to be put away. -/
def rainy : Step → Event
  | .runContainer c _ => .containerRunFailed c "rain"
  | .removeContainer "ladder" _ => .containerRemovalFailed "ladder" "wet"
  | step => Prompt.success step

theorem endsWith_rainy (step : Step) : step.EndsWith (rainy step) := by
  unfold rainy
  split
  · exact .inr (.exited ..)
  · exact .inr (.removed ..)
  · exact .inl (Prompt.succeeds_success _)

/-- The rain is why the shop could not open, and the user is told of the ladder besides. -/
theorem rain_is_explained : ∃ (t : Moment) (r : TaskReport),
    Moment.Ends machine t .failed ∧ r.Explains machine t.log .failed ∧
      r.failureMessage = some "Error: Could not run container 'till'.\nrain" ∧
      r.cleanupFailureMessages = ["Error: Could not remove container 'ladder'.\nwet"] := by
  have hends : (Execution.run Prompt.surroundings (Prompt.ending rainy) machine
      machine.graph.roundLimit ()).endsWith (fun r _ =>
        r.failureMessage = some "Error: Could not run container 'till'.\nrain" ∧
        r.cleanupFailureMessages = ["Error: Could not remove container 'ladder'.\nwet"] ∧
        .interrupted ∉ r.events) = true := by
    decide +kernel
  obtain ⟨r, _, hrun, hseen⟩ := Course.exists_ended hends
  obtain ⟨hmessage, hcleanup, hnot⟩ := of_decide_eq_true hseen
  obtain ⟨p, hp, hr⟩ := Passage.exists_passage_of_run (Prompt.orderly_ending endsWith_rainy) hrun
  obtain ⟨-, t, result, -, hstage, -, hexplains⟩ := Passage.explains_of_concludes hp hr
  have hpresent := hexplains.present
  rw [hmessage] at hpresent
  cases result with
  | succeeded => cases hpresent
  | failed => exact ⟨t, r, hstage, hexplains, hmessage, hcleanup⟩
  | cancelled => exact absurd (hexplains.grown.subset (hexplains.cancelled rfl).1) hnot

end Shop

end Stevedore
