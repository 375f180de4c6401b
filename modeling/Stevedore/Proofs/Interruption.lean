import Stevedore.Proofs.Once
import Stevedore.Proofs.WholeRun

/-!
How a run comes to rest: by an interruption, by a failure, or because the main container exits.

An interruption may come at any moment, also while steps are being announced or between the events
of two steps, and failures of steps that are under way may be posted before and after it is noted.
The decision does not depend on that order: it asks which of the three is among the events at all,
and an interruption counts before a failure, and a failure before the exit. So whatever is posted
later can only make the result more severe (`Machine.next_finished_append`).

What the loop adds is that an interruption is noted in time and only once (`Moment.Noting`): while
steps wait for their announcement it is not noted, and once it is noted nothing is planned any more.
`Machine.ComesToRest` puts together what this means for runs.
-/

namespace Stevedore

open Relation

/-- How bad a result is. -/
def TaskResult.severity : TaskResult → Nat
  | succeeded _ => 0
  | failed => 1
  | cancelled => 2

/-- How the runs of a task come to rest. -/
structure Machine.ComesToRest (m : Machine) : Prop where
  /-- An interruption is noted at most once, in the run stage or never. -/
  noted_once : ∀ p, Passage.Reachable m p → p.moment.log.count .interrupted ≤ 1
  /-- After that the run stage starts nothing, -/
  nothing_started : ∀ t before after, Moment.Reachable m t →
    t.log = before ++ .interrupted :: after → startedIn after = []
  /-- and the cleanup only what takes things down. -/
  only_teardown : ∀ p before after, Passage.Reachable m p →
    p.moment.log = before ++ .interrupted :: after →
    ∀ step ∈ startedIn after, step.isTeardown = true
  /-- A batch begins only if nothing has failed and the main container has not exited. -/
  batch : ∀ t u, Moment.Move m t u → u.batches ≠ t.batches →
    ¬ FailedIn t.log ∧ ∀ exitCode, .containerExited m.graph.main exitCode ∉ t.log
  cancelled_iff : ∀ t result, Moment.Reachable m t → Moment.Ends m t result →
    (result = .cancelled ↔ .interrupted ∈ t.log)
  failed_iff : ∀ t result, Moment.Reachable m t → Moment.Ends m t result →
    (result = .failed ↔ .interrupted ∉ t.log ∧ FailedIn t.log)
  succeeded_iff : ∀ t result exitCode, Moment.Reachable m t → Moment.Ends m t result →
    (result = .succeeded exitCode ↔
      ¬ FailedIn t.log ∧ .containerExited m.graph.main exitCode ∈ t.log)
  /-- An interruption before the loop has looked for one decides the result. -/
  heeded : ∀ u v t result, Moment.Reachable m u → u.cancelled = true → Moment.Move m u v →
    u.deciding = false → v.deciding = true → ReflTransGen (Moment.Move m) v t →
    Moment.Ends m t result → result = .cancelled
  /-- Whatever is posted when the task is over, it stays over, and the result gets no better. -/
  absorbing : ∀ events more result, m.next events = .finished result →
    ∃ result', m.next (events ++ more) = .finished result' ∧ result.severity ≤ result'.severity

variable {m : Machine} {events more : List Event}

/-! ## Decisions -/

namespace Machine

theorem next_eq_finished_iff {result : TaskResult} :
    m.next events = .finished result ↔ m.result? (.ofEvents events) = some result :=
  ⟨next_finished, next_of_result?⟩

/-- A task is over when something has failed, or when its main container has exited. -/
theorem exists_result?_iff : (∃ result, m.result? (.ofEvents events) = some result) ↔
    FailedIn events ∨ (Milestone.exited m.graph.main).ReachedIn events := by
  by_cases hf : FailedIn events
  · refine iff_of_true ?_ (.inl hf)
    by_contra hnone
    refine not_failedIn_of_result? (m := m) ?_ hf
    exact Option.eq_none_iff_forall_ne_some.2 fun result h => hnone ⟨result, h⟩
  · rw [result?_of_not_failedIn hf, ← Summary.reached_ofEvents, Summary.reached,
      SortedMap.contains]
    simp [hf, Option.isSome_iff_exists]

/-- What has happened since can only make the result more severe. -/
theorem next_finished_append {result : TaskResult} (h : m.next events = .finished result) :
    ∃ result', m.next (events ++ more) = .finished result' ∧
      result.severity ≤ result'.severity := by
  simp only [next_eq_finished_iff] at h ⊢
  have hsub : events ⊆ events ++ more := List.subset_append_left _ _
  obtain ⟨result', hresult'⟩ : ∃ result', m.result? (.ofEvents (events ++ more)) = some result' :=
    exists_result?_iff.2 <| (exists_result?_iff.1 ⟨result, h⟩).imp (·.mono hsub) (·.mono hsub)
  refine ⟨result', hresult', ?_⟩
  cases result with
  | succeeded => exact Nat.zero_le _
  | failed =>
    cases result' with
    | succeeded =>
      exact absurd ((result?_eq_failed.1 h).2.mono hsub) (result?_eq_succeeded.1 hresult').1
    | failed | cancelled => decide
  | cancelled =>
    have hinterrupted : m.result? (.ofEvents (events ++ more)) = some .cancelled :=
      result?_eq_cancelled.2 (hsub (result?_eq_cancelled.1 h))
    rw [hinterrupted] at hresult'
    obtain rfl := Option.some.inj hresult'
    exact Nat.le_refl _

/-- Only what is not over goes on. -/
theorem not_over_of_dispatch {steps : List Step} (h : m.next events = .dispatch steps) :
    ¬ FailedIn events ∧ ¬ (Milestone.exited m.graph.main).ReachedIn events := by
  rw [← not_or, ← exists_result?_iff]
  rintro ⟨result, hresult⟩
  rw [next_of_result? hresult] at h
  simp at h

end Machine

/-! ## Noting an interruption -/

theorem Step.Reports.ne_interrupted {step : Step} {e : Event} (h : step.Reports e) :
    e ≠ .interrupted := by
  rintro rfl
  cases h

theorem Passage.IsEnd.ne_interrupted {step : Step} {e : Event} (h : IsEnd step e) :
    e ≠ .interrupted := by
  rintro rfl
  rcases h with (h | h) | h <;> cases h

namespace Moment

variable {t u : Moment} {result : TaskResult}

/-- Whether an interruption was noted as it should be, if it was. -/
structure Noting (t : Moment) : Prop where
  noted_iff : t.noted = true ↔ .interrupted ∈ t.log
  once : t.log.count .interrupted ≤ 1
  /-- Nobody waits for an announcement any more. -/
  still : t.noted = true → t.waiting = []

/-- Other events make no difference. -/
theorem Noting.post {e : Event} (h : Noting t) (he : e ≠ .interrupted)
    (hlog : u.log = t.log ++ [e]) (hnoted : u.noted = t.noted)
    (hstill : t.noted = true → u.waiting = []) : Noting u where
  noted_iff := by
    rw [hnoted, hlog, h.noted_iff, List.mem_append, List.mem_singleton]
    exact (or_iff_left he.symm).symm
  once := by
    rw [hlog, List.count_append, List.count_singleton]
    simpa [he] using h.once
  still := fun hu => hstill (hnoted ▸ hu)

/-- The interruption is noted for the first time when nobody waits. -/
theorem Noting.note (h : Noting t) (first : t.noted = false)
    (hlog : u.log = t.log ++ [.interrupted]) (hnoted : u.noted = true)
    (hstill : u.waiting = []) : Noting u where
  noted_iff := by simp [hnoted, hlog]
  once := by
    have hnone : Event.interrupted ∉ t.log := by
      rw [← h.noted_iff, first]
      exact Bool.false_ne_true
    rw [hlog, List.count_append, List.count_eq_zero.2 hnone]
    exact Nat.le_refl _
  still := fun _ => hstill

theorem Noting.work (h : Noting t) (hw : Work t u) : Noting u := by
  cases hw with
  | @announce step rest next =>
    refine h.post (e := .stepStarting step) nofun rfl rfl fun hnoted => ?_
    rw [h.still hnoted] at next
    simp at next
  | report _ own => exact h.post own.ne_interrupted rfl rfl h.still
  | finish _ own => exact h.post (Passage.IsEnd.ne_interrupted (.inl own)) rfl rfl h.still
  | crash => exact h.post (e := Execution.crashEvent _) nofun rfl rfl h.still

theorem Noting.move (h : Noting t) (hm : Move m t u) : Noting u := by
  cases hm with
  | work inside => exact h.work inside
  | cancel | pass => exact ⟨h.noted_iff, h.once, h.still⟩
  | notice all _ _ first => exact h.note first rfl rfl all
  | check idle _ _ first => exact h.note first rfl rfl idle.1
  | dispatch _ _ decision =>
    refine ⟨h.noted_iff, h.once, fun hnoted => ?_⟩
    have hfailed : FailedIn t.log := ⟨_, h.noted_iff.1 hnoted, rfl⟩
    exact absurd hfailed (Machine.not_over_of_dispatch decision).1
  | stall idle => exact h.post (e := stallEvent) nofun rfl rfl h.still

theorem Reachable.noting (h : Reachable m t) : Noting t := by
  induction h with
  | refl => exact ⟨by simp, by simp, fun _ => rfl⟩
  | tail _ hm ih => exact ih.move hm

/-- Nothing is announced once an interruption has been noted. -/
theorem Reachable.startedIn_after_interrupted {before after : List Event} (h : Reachable m t)
    (hlog : t.log = before ++ .interrupted :: after) : startedIn after = [] := by
  rw [List.eq_nil_iff_forall_not_mem]
  intro step hs
  obtain ⟨between, rest, rfl⟩ := List.append_of_mem (mem_startedIn.1 hs)
  rw [← List.cons_append, ← List.append_assoc] at hlog
  obtain ⟨u, waiting, hu, hbefore, hwaiting⟩ := h.announced hlog
  have hnoted : u.noted = true := hu.noting.noted_iff.2 (by simp [hbefore])
  rw [hu.noting.still hnoted] at hwaiting
  simp at hwaiting

/-- Events stay. -/
theorem log_subset_of_moves (h : ReflTransGen (Move m) t u) : t.log ⊆ u.log := by
  induction h with
  | refl => exact List.Subset.refl _
  | tail _ hm ih =>
    rcases hm.log_cases with hlog | ⟨e, hlog⟩ <;> rw [hlog]
    · exact ih
    · exact List.subset_append_of_subset_left _ ih

/-- When the loop has looked for an interruption and there was one, then it is noted. -/
theorem Reachable.interrupted_of_look (h : Reachable m t) (hc : t.cancelled = true)
    (hm : Move m t u) (htop : t.deciding = false) (hdecides : u.deciding = true) :
    .interrupted ∈ u.log := by
  cases hm with
  | work inside =>
    obtain ⟨-, hsame, -⟩ := loop_of_work (.single inside)
    exact absurd (htop.symm.trans (hsame.symm.trans hdecides)) Bool.false_ne_true
  | cancel | notice => exact absurd (htop.symm.trans hdecides) Bool.false_ne_true
  | check => simp
  | pass _ _ nothing =>
    have hnoted : t.noted = true := nothing.resolve_left (by simp [hc])
    exact h.noting.noted_iff.1 hnoted
  | dispatch _ decides | stall _ decides =>
    exact absurd (htop.symm.trans decides) Bool.false_ne_true

/-- A move that begins a batch is made when the task is not over. -/
theorem Move.not_over (h : Move m t u) (hbatches : u.batches ≠ t.batches) :
    ¬ FailedIn t.log ∧ ¬ (Milestone.exited m.graph.main).ReachedIn t.log := by
  cases h with
  | work inside =>
    obtain ⟨-, -, hsame⟩ := loop_of_work (.single inside)
    exact absurd hsame hbatches
  | cancel | notice | check | pass | stall => exact absurd rfl hbatches
  | dispatch _ _ decision => exact Machine.not_over_of_dispatch decision

theorem Ends.eq_iff (h : Ends m t result) (result' : TaskResult) :
    result = result' ↔ m.result? (.ofEvents t.log) = some result' := by
  rw [Machine.next_finished h.2.2]
  exact Option.some_inj.symm

/-- The exit code of the main container was posted, and no other. -/
theorem Reachable.exited_iff (hg : m.graph.WellFormed) (h : Reachable m t) {exitCode : Int} :
    (Summary.ofEvents t.log).exited.get? m.graph.main = some exitCode ↔
      .containerExited m.graph.main exitCode ∈ t.log := by
  have hmem : ∀ told, (Summary.ofEvents t.log).exited.get? m.graph.main = some told →
      .containerExited m.graph.main told ∈ t.log := by
    intro told htold
    exact Summary.mem_of_shows (e := .containerExited m.graph.main told) htold
  constructor
  · exact hmem exitCode
  · intro hexited
    have hreached := (Summary.reached_ofEvents t.log (.exited m.graph.main)).2 ⟨_, hexited, rfl⟩
    obtain ⟨told, htold⟩ := Option.isSome_iff_exists.1 hreached
    have hsame := h.eq_of_milestone? hg hexited (hmem told htold) rfl rfl
    rw [htold, (Event.containerExited.inj hsame).2]

end Moment

namespace Passage

variable {p : Passage}

/-- In the cleanup no interruption is noted. -/
theorem Tally.interrupted_not_mem {steps : List Step} {before posted : List Event}
    {ended : List (Step × Event)} {ahead : List (List Step)} {t : Moment}
    (h : Tally steps before posted ended ahead t) : .interrupted ∉ posted := by
  rw [h.mem_posted]
  rintro (⟨step, -, heq⟩ | ⟨step, hended⟩)
  · simp at heq
  · exact (h.ends _ hended).ne_interrupted rfl

theorem Reachable.count_interrupted_le (h : Reachable m p) :
    p.moment.log.count .interrupted ≤ 1 := by
  cases h.known with
  | running reachable => exact reachable.noting.once
  | closing since =>
    rw [moment, since.tally.log_eq, List.count_append,
      List.count_eq_zero.2 since.tally.interrupted_not_mem]
    exact since.reachable.noting.once

/-- Once an interruption has been noted, only cleanup starts anything. -/
theorem Reachable.isTeardown_after_interrupted {before after : List Event} (h : Reachable m p)
    (hlog : p.moment.log = before ++ .interrupted :: after) :
    ∀ step ∈ startedIn after, step.isTeardown = true := by
  cases h.known with
  | running reachable =>
    rw [reachable.startedIn_after_interrupted hlog]
    simp
  | @closing s _ _ _ posted _ _ since =>
    have hnot := since.tally.interrupted_not_mem
    rw [moment, since.tally.log_eq] at hlog
    obtain ⟨between, -, hposted⟩ | ⟨rest, hbefore, hrest⟩ := List.append_eq_append_iff.1 hlog
    · rw [hposted] at hnot
      simp at hnot
    · cases rest with
      | nil =>
        rw [← List.nil_append posted, ← hrest] at hnot
        simp at hnot
      | cons e rest =>
        rw [List.cons_append, List.cons.injEq] at hrest
        obtain ⟨rfl, rfl⟩ := hrest
        intro step hs
        rw [startedIn_append, since.reachable.startedIn_after_interrupted hbefore] at hs
        exact Machine.isTeardown_of_mem_plan since.decision (since.tally.mem_of_started hs)

end Passage

/-- **Every run comes to rest in time and with the right result**, whatever graph was resolved. -/
theorem Machine.comesToRest_of_resolve {project : Project} {task : String}
    (hresolve : Graph.resolve project task = .ok m.graph) : m.ComesToRest where
  noted_once _ hp := hp.count_interrupted_le
  nothing_started _ _ _ ht hlog := ht.startedIn_after_interrupted hlog
  only_teardown _ _ _ hp hlog := hp.isTeardown_after_interrupted hlog
  batch t u hmove hbatches := by
    obtain ⟨hfailed, hexited⟩ := hmove.not_over hbatches
    exact ⟨hfailed, fun exitCode h => hexited ⟨_, h, rfl⟩⟩
  cancelled_iff t result _ hends := by
    rw [hends.eq_iff, result?_eq_cancelled]
  failed_iff t result _ hends := by
    rw [hends.eq_iff, result?_eq_failed]
  succeeded_iff t result exitCode ht hends := by
    rw [hends.eq_iff, result?_eq_succeeded,
      ht.exited_iff (Graph.wellFormed_of_resolve hresolve)]
  heeded u v t result hu hcancelled hlook htop hdecides hmoves hends := by
    have hlooked := hu.interrupted_of_look hcancelled hlook htop hdecides
    rw [hends.eq_iff, result?_eq_cancelled]
    exact Moment.log_subset_of_moves hmoves hlooked
  absorbing _ _ _ h := next_finished_append h

/-! ## An interrupted run -/

namespace Prompt

/-- Surroundings in which a run is interrupted once somebody has said so. -/
def interruptible : Surroundings Bool where
  ask := fun _ _ w => (([], .never), w)
  change := fun _ w => (.ok (), w)
  isCancelled := id

/-- Every step succeeds when it is begun, and whoever pulls an image interrupts the run. -/
def interrupting : Beginning Bool := fun _ step s =>
  ({ interruptible.post (success step) s with
      world := s.world || step.milestone = .pulled "wood" }, .ended .finished)

theorem orderly_interrupting : interrupting.Orderly := by
  intro stage step s
  refine ⟨[success step], rfl, [], success step, rfl, by simp, ?_⟩
  exact .inl (succeeds_success step)

end Prompt

namespace Shop

/-- The shop is interrupted while its first steps are under way. All of them come to their ends,
and nothing else is started. -/
theorem interrupted_while_wood_is_pulled : ∃ t, Moment.Reachable machine t ∧
    Moment.Ends machine t .cancelled ∧ .imageBuilt "till" ⟨"till"⟩ ∈ t.log ∧
    (startedIn t.log).length = 4 ∧ t.log.count .interrupted ≤ 1 := by
  have hends : (Execution.runStage Prompt.interruptible Prompt.interrupting machine
      machine.graph.roundLimit false ⟨false, []⟩).endsWith (fun _ s =>
        .interrupted ∈ s.log ∧ .imageBuilt "till" ⟨"till"⟩ ∈ s.log ∧
          (startedIn s.log).length = 4) = true := by
    decide +kernel
  obtain ⟨result, s, hrun, hseen⟩ := Course.exists_ended hends
  obtain ⟨hinterrupted, hbuilt, hstarted⟩ := of_decide_eq_true hseen
  obtain ⟨t, ht, hlog, hends⟩ := Moment.reachable_of_runStage Prompt.orderly_interrupting hrun
  rw [← hlog] at hinterrupted hbuilt hstarted
  have hrest := Machine.comesToRest_of_resolve resolve_project
  obtain rfl := (hrest.cancelled_iff t result ht hends).2 hinterrupted
  exact ⟨t, ht, hends, hbuilt, hstarted, hrest.noted_once _ (Passage.reachable_running ht)⟩

end Shop

end Stevedore
