import Mathlib.Logic.Relation
import Stevedore.Execution
import Stevedore.Proofs.Milestone

/-!
The run stage of a task with all its freedom: steps of one batch run at the same time, and their
events come in any order; an interruption may come at any moment.

A `Moment` is where such a run stands. `Moment.Work` is what happens inside a batch, one event at a
time: the steps are announced one after the other, and each posts events from its announcement
until the event that ends it. A step that has been announced may already post while others still
wait for their announcement. `Moment.Move` adds the loop around the batches. The loop looks for an
interruption, asks `Machine.next`, and begins the next batch only when every step of the last one
has ended; while it waits for the steps it notes an interruption as soon as it may.

What holds in every `Reachable` moment holds of every run, since `Execution.runStage` with any
orderly steps goes through reachable moments only.
-/

namespace Stevedore

open Relation

/-- Where the run stage of a task stands. -/
structure Moment where
  log : List Event := []
  /-- The steps of the current batch that have not been announced yet. -/
  waiting : List Step := []
  /-- The steps that have been announced and have not ended. -/
  underWay : List Step := []
  /-- Whether the run has been interrupted. -/
  cancelled : Bool := false
  /-- Whether the interruption has been noted in the events. -/
  noted : Bool := false
  /-- Whether the loop has looked for an interruption and is about to decide. -/
  deciding : Bool := false
  /-- The number of batches that were begun. -/
  batches : Nat := 0

namespace Moment

/-- The moment after an event. -/
def post (t : Moment) (e : Event) : Moment := { t with log := t.log ++ [e] }

/-- The moment after an event that ends a step. -/
def close (t : Moment) (step : Step) (e : Event) : Moment :=
  { t.post e with underWay := t.underWay.erase step }

/-- The moment at which a batch begins. -/
def begin (t : Moment) (steps : List Step) : Moment :=
  { t with waiting := steps, deciding := false, batches := t.batches + 1 }

/-- Whether no step waits or is under way. -/
def IsIdle (t : Moment) : Prop := t.waiting = [] ∧ t.underWay = []

/-- What happens inside a batch. -/
inductive Work : Moment → Moment → Prop
  | announce {t : Moment} {step : Step} {rest : List Step} (next : t.waiting = step :: rest) :
      Work t
        { t.post (.stepStarting step) with waiting := rest, underWay := t.underWay ++ [step] }
  | report {t : Moment} {step : Step} {e : Event} (running : step ∈ t.underWay)
      (own : step.Reports e) : Work t (t.post e)
  | finish {t : Moment} {step : Step} {e : Event} (running : step ∈ t.underWay)
      (own : step.EndsWith e) : Work t (t.close step e)
  /-- A step is broken off; this is posted in its place once all steps have been announced. -/
  | crash {t : Moment} {step : Step} (running : step ∈ t.underWay) (all : t.waiting = []) :
      Work t (t.close step (Execution.crashEvent step))

/-- What is posted when nothing may start and yet the task is not over. -/
def stallEvent : Event :=
  .executionFailed "The task cannot make progress: no steps are ready to run."

/-- What happens in the run stage of a task. -/
inductive Move (m : Machine) : Moment → Moment → Prop
  | work {t u : Moment} (inside : Work t u) : Move m t u
  | cancel {t : Moment} : Move m t { t with cancelled := true }
  /-- An interruption is noted while the batch is waited for. -/
  | notice {t : Moment} (all : t.waiting = []) (waits : t.deciding = false)
      (now : t.cancelled = true) (first : t.noted = false) :
      Move m t { t.post .interrupted with noted := true }
  /-- The loop finds an interruption that has not been noted. -/
  | check {t : Moment} (idle : t.IsIdle) (top : t.deciding = false)
      (now : t.cancelled = true) (first : t.noted = false) :
      Move m t { t.post .interrupted with noted := true, deciding := true }
  /-- The loop finds nothing to note. -/
  | pass {t : Moment} (idle : t.IsIdle) (top : t.deciding = false)
      (nothing : t.cancelled = false ∨ t.noted = true) : Move m t { t with deciding := true }
  | dispatch {t : Moment} {steps : List Step} (idle : t.IsIdle) (decides : t.deciding = true)
      (decision : m.next t.log = .dispatch steps) : Move m t (t.begin steps)
  | stall {t : Moment} (idle : t.IsIdle) (decides : t.deciding = true)
      (decision : m.next t.log = .stalled) :
      Move m t { t.post stallEvent with deciding := false }

/-- The moments that some run of the task comes to. -/
def Reachable (m : Machine) (t : Moment) : Prop := ReflTransGen (Move m) {} t

/-- Whether the run stage ends here, with a result. -/
def Ends (m : Machine) (t : Moment) (result : TaskResult) : Prop :=
  t.IsIdle ∧ t.deciding = true ∧ m.next t.log = .finished result

@[simp] theorem post_log (t : Moment) (e : Event) : (t.post e).log = t.log ++ [e] := rfl
@[simp] theorem post_batches (t : Moment) (e : Event) : (t.post e).batches = t.batches := rfl

@[simp] theorem begin_log (t : Moment) (steps : List Step) : (t.begin steps).log = t.log := rfl

@[simp] theorem close_log (t : Moment) (step : Step) (e : Event) :
    (t.close step e).log = t.log ++ [e] := rfl
@[simp] theorem close_underWay (t : Moment) (step : Step) (e : Event) :
    (t.close step e).underWay = t.underWay.erase step := rfl

/-! ## The log of a run -/

variable {m : Machine} {t u : Moment}

theorem Reachable.start : Reachable m {} := .refl

theorem Reachable.move (h : Reachable m t) (hm : Move m t u) : Reachable m u := .tail h hm

theorem Reachable.works (h : Reachable m t) (hw : ReflTransGen Work t u) : Reachable m u :=
  h.trans (hw.lift id fun _ _ => .work)

/-- A move posts one event or none. -/
theorem Move.log_cases (h : Move m t u) : u.log = t.log ∨ ∃ e, u.log = t.log ++ [e] := by
  cases h with
  | work inside =>
    right
    cases inside <;> exact ⟨_, rfl⟩
  | cancel | pass | dispatch => exact .inl rfl
  | notice | check | stall => exact .inr ⟨_, rfl⟩

/-- A step comes under way when it is announced. -/
theorem Move.mem_underWay {step : Step} (h : Move m t u) (hs : step ∈ u.underWay) :
    step ∈ t.underWay ∨ step ∈ t.waiting := by
  cases h with
  | work inside =>
    cases inside with
    | announce next =>
      rcases List.mem_append.1 hs with hs | hs
      · exact .inl hs
      · rw [next, List.mem_singleton.1 hs]
        exact .inr (List.mem_cons_self ..)
    | report => exact .inl hs
    | finish | crash => exact .inl (List.mem_of_mem_erase hs)
  | cancel | pass | dispatch | notice | check | stall => exact .inl hs

/-- An interruption is not taken back. -/
theorem Move.cancelled (h : Move m t u) (hc : t.cancelled = true) : u.cancelled = true := by
  cases h with
  | work inside => cases inside <;> exact hc
  | cancel => rfl
  | pass | dispatch | notice | check | stall => exact hc

/-- Only an announcement posts that a step starts. -/
theorem Move.waiting_of_stepStarting {step : Step} (h : Move m t u)
    (hlog : u.log = t.log ++ [.stepStarting step]) : ∃ rest, t.waiting = step :: rest := by
  have hlast : ∀ e, t.log ++ [e] = t.log ++ [.stepStarting step] → e = .stepStarting step := by
    intro e he
    simpa using List.append_cancel_left he
  cases h with
  | work inside =>
    cases inside with
    | announce next =>
      have := hlast _ hlog
      simp only [Event.stepStarting.injEq] at this
      exact ⟨_, this ▸ next⟩
    | report _ own =>
      have := own.startedStep?
      rw [hlast _ hlog] at this
      simp [Event.startedStep?] at this
    | finish _ own =>
      have := own.startedStep?
      rw [hlast _ hlog] at this
      simp [Event.startedStep?] at this
    | crash => exact absurd (hlast _ hlog) (by simp [Execution.crashEvent])
  | cancel | pass | dispatch => simp at hlog
  | notice | check => exact absurd (hlast _ hlog) (by simp)
  | stall => exact absurd (hlast _ hlog) (by simp [stallEvent])

/-- Only a step that is under way posts that something has been reached. -/
theorem Move.underWay_of_milestone {e : Event} {k : Milestone} (h : Move m t u)
    (hlog : u.log = t.log ++ [e]) (hk : e.milestone? = some k) :
    ∃ step ∈ t.underWay, step.milestone = k := by
  have hlast : ∀ e', t.log ++ [e'] = t.log ++ [e] → e'.milestone? = some k := by
    intro e' he
    obtain rfl : e' = e := by simpa using List.append_cancel_left he
    exact hk
  cases h with
  | work inside =>
    cases inside with
    | announce => exact absurd (hlast _ hlog) (by simp [Event.milestone?])
    | report _ own => exact absurd (hlast _ hlog) (by simp [own.milestone?])
    | finish running own => exact ⟨_, running, own.milestone_eq (hlast _ hlog)⟩
    | crash => exact absurd (hlast _ hlog) (by simp [Execution.crashEvent, Event.milestone?])
  | cancel | pass | dispatch => simp at hlog
  | notice | check => exact absurd (hlast _ hlog) (by simp [Event.milestone?])
  | stall => exact absurd (hlast _ hlog) (by simp [stallEvent, Event.milestone?])

/-- Every event of a run was posted by a move from a reachable moment. -/
theorem Reachable.posted {before after : List Event} {e : Event} (h : Reachable m t)
    (hlog : t.log = before ++ e :: after) :
    ∃ u v, Reachable m u ∧ Move m u v ∧ u.log = before ∧ v.log = before ++ [e] := by
  induction h generalizing after with
  | refl => simp at hlog
  | @tail u v hu hm ih =>
    rcases hm.log_cases with hv | ⟨last, hv⟩
    · exact ih (hv ▸ hlog)
    · rcases List.eq_nil_or_concat after with rfl | ⟨init, x, rfl⟩
      · rw [hv] at hlog
        obtain ⟨hb, he⟩ := List.append_inj' hlog rfl
        refine ⟨u, v, hu, hm, hb, ?_⟩
        rw [hv, hb, he]
      · rw [hv, List.concat_eq_append] at hlog
        have hlog' : u.log ++ [last] = (before ++ e :: init) ++ [x] := by simpa using hlog
        exact ih (List.append_inj' hlog' rfl).1

/-- When a step starts, it was the next one to be announced in a reachable moment. -/
theorem Reachable.announced {before after : List Event} {step : Step} (h : Reachable m t)
    (hlog : t.log = before ++ .stepStarting step :: after) :
    ∃ u rest, Reachable m u ∧ u.log = before ∧ u.waiting = step :: rest := by
  obtain ⟨u, v, hu, hm, rfl, hv⟩ := h.posted hlog
  obtain ⟨rest, hw⟩ := hm.waiting_of_stepStarting hv
  exact ⟨u, rest, hu, rfl, hw⟩

end Moment

end Stevedore
