import Mathlib.Data.List.Induction
import Stevedore.Proofs.Milestone
import Stevedore.Summary

/-!
What a summary says, read back as facts about the events it was made from.

Two views of a summary carry the proofs about runs. `Summary.reached` asks for milestones and
forgets what the engine chose: `reached_ofEvents` says that it holds exactly of the milestones that
the events tell of. `Summary.shows` asks for one event with everything it carries:
`mem_of_shows` says that whatever the summary shows has been posted. The other direction of the
second view fails, because a later event may overwrite an earlier one.
-/

namespace Stevedore.Summary

/-! ## One event at a time -/

theorem ofEvents_snoc (events : List Event) (e : Event) :
    ofEvents (events ++ [e]) = (ofEvents events).note e := by
  simp [ofEvents, List.foldl_append]

/-- What the events add up to, one event after the other. -/
theorem ofEvents_induction {P : List Event → Summary → Prop} (nil : P [] {})
    (snoc : ∀ events e s, P events s → P (events ++ [e]) (s.note e)) (events : List Event) :
    P events (ofEvents events) := by
  induction events using List.reverseRecOn with
  | nil => exact nil
  | append_singleton events e ih =>
    rw [ofEvents_snoc]
    exact snoc events e _ ih

/-! ## Failures and interruptions -/

@[simp] theorem firstFailure_noteState (s : Summary) (e : Event) :
    (s.noteState e).firstFailure = s.firstFailure := by
  cases e <;> simp only [noteState]
  split <;> rfl

theorem hasFailed_note (s : Summary) (e : Event) :
    (s.note e).hasFailed = (s.hasFailed || e.isTaskFailure) := by
  simp only [hasFailed, note, firstFailure_noteState, noteFailure]
  cases s.firstFailure <;> cases e.isTaskFailure <;> simp

/-- The task has failed when a failure was posted. -/
theorem hasFailed_ofEvents (events : List Event) :
    (ofEvents events).hasFailed = true ↔ FailedIn events := by
  induction events using ofEvents_induction with
  | nil => simp [hasFailed, FailedIn]
  | snoc events e s ih =>
    rw [hasFailed_note, Bool.or_eq_true, ih, failedIn_concat]

/-- The task was interrupted when this was posted. -/
theorem interrupted_ofEvents (events : List Event) :
    (ofEvents events).interrupted = true ↔ .interrupted ∈ events := by
  induction events using ofEvents_induction with
  | nil => simp
  | snoc events e s ih =>
    rw [List.mem_append, List.mem_singleton, ← ih]
    cases e with
    | stepStarting step =>
      simp only [note, noteState]
      split <;> simp [noteFailure]
    | _ => simp [note, noteState, noteFailure]

@[simp] theorem cleanupFailures_noteState (s : Summary) (e : Event) :
    (s.noteState e).cleanupFailures = s.cleanupFailures := by
  cases e <;> simp only [noteState]
  split <;> rfl

/-- The failures of the cleanup are those that were posted. -/
theorem cleanupFailures_ofEvents (events : List Event) :
    (ofEvents events).cleanupFailures = events.filter Event.isCleanupFailure := by
  induction events using ofEvents_induction with
  | nil => rfl
  | snoc events e s ih =>
    rw [note, cleanupFailures_noteState, List.filter_append, ← ih]
    cases he : e.isCleanupFailure <;> simp [noteFailure, he]

/-! ## Steps -/

/-- Only what is deleted can be spelled in two ways. -/
theorem same_iff_of_not_teardown {step : Step} (hs : step.isTeardown = false) (other : Step) :
    step.same other = true ↔ other = step := by
  cases step with
  | deleteFile | deleteDirectory => simp [Step.isTeardown] at hs
  | _ => exact decide_eq_true_iff.trans eq_comm

theorem same_trans {a b c : Step} (h : a.same b = true) (h' : b.same c = true) :
    a.same c = true := by
  cases a with
  | deleteFile | deleteDirectory =>
    cases b <;> simp only [Step.same, Path.same, decide_eq_true_eq, reduceCtorEq] at h
    cases c <;> simp only [Step.same, Path.same, decide_eq_true_eq, reduceCtorEq] at h'
    simpa only [Step.same, Path.same, decide_eq_true_eq] using h.trans h'
  | _ => exact (of_decide_eq_true h).symm ▸ h'

theorem wasDispatched_note {s : Summary} {e : Event} {step : Step} :
    (s.note e).wasDispatched step = true ↔
      s.wasDispatched step = true ∨ ∃ other, e = .stepStarting other ∧ step.same other = true := by
  cases e with
  | stepStarting other =>
    simp only [note, noteState, Event.stepStarting.injEq, exists_eq_left']
    split
    · next h =>
      -- An announcement that is passed over repeats a step that is the same work.
      refine (or_iff_left_of_imp fun hsame => ?_).symm
      obtain ⟨d, hd, hother⟩ := List.any_eq_true.1 h
      exact List.any_eq_true.2 ⟨d, hd, same_trans hsame hother⟩
    · simp [wasDispatched, noteFailure]
  | _ => simp [note, noteState, noteFailure, wasDispatched]

/-- A step counts as started exactly if one was announced that is the same work. -/
theorem wasDispatched_iff {step : Step} {events : List Event} :
    (ofEvents events).wasDispatched step = true ↔
      ∃ other, .stepStarting other ∈ events ∧ step.same other = true := by
  induction events using ofEvents_induction with
  | nil => simp [wasDispatched]
  | snoc events e s ih =>
    rw [wasDispatched_note, ih]
    simp only [List.mem_append, List.mem_singleton, or_and_right, exists_or, eq_comm (a := e)]

/-- What takes nothing down counts as started exactly if the very step was announced. -/
theorem wasDispatched_ofEvents {step : Step} (hs : step.isTeardown = false)
    (events : List Event) :
    (ofEvents events).wasDispatched step = true ↔ .stepStarting step ∈ events := by
  simp [wasDispatched_iff, same_iff_of_not_teardown hs]

/-! ## Milestones -/

/-- Whether the summary says that the milestone has been reached. -/
def reached (s : Summary) : Milestone → Bool
  | .network => s.network.isSome
  | .caches => s.cachesInitialised
  | .built c => s.built.contains c
  | .pulled reference => s.pulled.contains reference
  | .created c => s.created.contains c
  | .started c => s.started.contains c
  | .healthy c => s.healthy.contains c
  | .ready c => s.ready.contains c
  | .exited c => s.exited.contains c
  | .stopped c => s.stopped.contains c
  | .removed c => s.removed.contains c
  | .fileDeleted path => s.deletedFiles.contains path
  | .directoryDeleted path => s.deletedDirectories.contains path
  | .networkDeleted => s.networkDeleted

theorem reached_noteFailure (s : Summary) (e : Event) (k : Milestone) :
    (s.noteFailure e).reached k = s.reached k := by
  cases k <;> rfl

theorem reached_noteState (s : Summary) (e : Event) (k : Milestone) :
    (s.noteState e).reached k = (decide (e.milestone? = some k) || s.reached k) := by
  cases e with
  | stepStarting step =>
    simp only [noteState, Event.milestone?]
    split
    · simp
    · cases k <;> simp [reached]
  | _ => cases k <;> simp [noteState, reached, Event.milestone?]

/-- The summary knows the milestones that were told of. -/
theorem reached_ofEvents (events : List Event) (k : Milestone) :
    (ofEvents events).reached k = true ↔ k.ReachedIn events := by
  induction events using ofEvents_induction with
  | nil => cases k <;> simp [reached, Milestone.ReachedIn]
  | snoc events e s ih =>
    rw [note, reached_noteState, reached_noteFailure, Bool.or_eq_true, ih, decide_eq_true_eq,
      Milestone.reachedIn_concat]
    exact or_comm

theorem mem_of_reached (k : Milestone) {e : Event} (he : k.event? = some e) {events : List Event}
    (h : (ofEvents events).reached k = true) : e ∈ events :=
  (Milestone.reachedIn_iff he).1 ((reached_ofEvents events k).1 h)

/-! ## Events that the summary shows -/

/-- Whether the summary still shows what the event told, with everything it carried. -/
def shows (s : Summary) : Event → Prop
  | .networkCreated network => s.network = some network
  | .imageBuilt c image => s.built.get? c = some image
  | .imagePulled reference image => s.pulled.get? reference = some image
  | .containerCreated c handle => s.created.get? c = some handle
  | .containerExited c exitCode => s.exited.get? c = some exitCode
  | _ => False

theorem shows_noteFailure (s : Summary) (e e' : Event) :
    (s.noteFailure e).shows e' ↔ s.shows e' := by
  cases e' <;> rfl

theorem shows_of_shows_noteState {s : Summary} {e e' : Event} (h : (s.noteState e).shows e') :
    e' = e ∨ s.shows e' := by
  cases e with
  | stepStarting step =>
    simp only [noteState] at h
    split at h
    · exact .inr h
    · cases e' <;> exact .inr h
  | _ =>
    cases e' <;> simp only [noteState, shows] at h ⊢
    all_goals first | exact .inr h | grind [SortedMap.get?_insert]

/-- What the summary shows has been posted. -/
theorem mem_of_shows {events : List Event} {e : Event} (h : (ofEvents events).shows e) :
    e ∈ events := by
  induction events using ofEvents_induction with
  | nil => cases e <;> simp [shows] at h
  | snoc events e' s ih =>
    rcases shows_of_shows_noteState h with rfl | h
    · simp
    · exact List.mem_append_left _ (ih ((shows_noteFailure _ _ _).1 h))

end Stevedore.Summary
