import Mathlib.Data.List.Nodup
import Stevedore.Proofs.Moment
import Stevedore.Proofs.Planning

/-!
The invariant of the run stage.

In a `Lawful` moment every step that was started, or is about to be, is allowed by the events so
far, and no two of them share a milestone. A step that was started and is no longer under way has
either reached its milestone or failed; and whatever milestone the events tell of was reached by a
step that has ended. Between two batches nothing is under way, so unless the task has failed every
step that was started has reached its milestone. This is what the planning of the next batch rests
on (`Lawful.reachedIn_of_started`): a stage that is planned because its milestone is missing has
never been tried before, although the plan itself only compares whole steps.

Every move of a well-formed graph's run keeps this (`Lawful.move`), hence every run does
(`Reachable.lawful`).
-/

namespace Stevedore.Moment

/-- What is true of every moment of a run. -/
structure Lawful (g : Graph) (t : Moment) : Prop where
  allowed : ∀ step ∈ startedIn t.log ++ t.waiting, g.Allows t.log step
  /-- No two steps are there for the same thing. -/
  once : ((startedIn t.log ++ t.waiting).map Step.milestone).Nodup
  started : t.underWay.Sublist (startedIn t.log)
  /-- A step that has ended succeeded, or the task has failed. -/
  ended : ∀ step ∈ startedIn t.log,
    step ∈ t.underWay ∨ step.milestone.ReachedIn t.log ∨ FailedIn t.log
  /-- Whatever was reached was reached by a step that has ended. -/
  earned : ∀ k : Milestone, k.ReachedIn t.log →
    ∃ step ∈ startedIn t.log, step.milestone = k ∧ step ∉ t.underWay
  /-- Each batch has at least one step. -/
  counted : t.batches ≤ (startedIn t.log).length + t.waiting.length

variable {g : Graph} {m : Machine} {t u : Moment} {step : Step}

theorem lawful_start (g : Graph) : Lawful g {} where
  allowed := by simp
  once := by simp
  started := .refl _
  ended := by simp
  earned k := by simp [Milestone.ReachedIn]
  counted := Nat.zero_le _

/-- A step with the milestone of a started one is that one. -/
theorem Lawful.eq_of_milestone_eq (h : Lawful g t) {other : Step} (hs : step ∈ startedIn t.log)
    (ho : other ∈ startedIn t.log) (hm : step.milestone = other.milestone) : step = other := by
  have hn : ((startedIn t.log).map Step.milestone).Nodup := by
    refine List.Nodup.sublist ?_ h.once
    rw [List.map_append]
    exact List.sublist_append_left _ _
  exact List.inj_on_of_nodup_map hn hs ho hm

/-- What is under way has not succeeded. -/
theorem Lawful.not_reachedIn_of_underWay (h : Lawful g t) (hs : step ∈ t.underWay) :
    ¬ step.milestone.ReachedIn t.log := by
  intro hr
  obtain ⟨other, ho, hm, hnot⟩ := h.earned _ hr
  exact hnot (h.eq_of_milestone_eq ho (h.started.subset hs) hm ▸ hs)

/-- What waits has not been started. -/
theorem Lawful.not_started_of_waiting (h : Lawful g t) (hs : step ∈ t.waiting) :
    step ∉ startedIn t.log := by
  have hn := List.Nodup.of_map _ h.once
  rw [List.nodup_append] at hn
  intro hstarted
  exact hn.2.2 step hstarted step hs rfl

theorem Lawful.isTeardown (h : Lawful g t) (hs : step ∈ startedIn t.log) :
    step.isTeardown = false :=
  (h.allowed step (List.mem_append_left _ hs)).isTeardown

/-- Between two batches every step that was started has reached its milestone. -/
theorem Lawful.reachedIn_of_started (h : Lawful g t) (hi : t.IsIdle) (hf : ¬ FailedIn t.log)
    (hs : step ∈ startedIn t.log) : step.milestone.ReachedIn t.log := by
  rcases h.ended step hs with hu | hr | hfail
  · rw [hi.2] at hu
    simp at hu
  · exact hr
  · exact absurd hfail hf

/-! ## What each move keeps -/

/-- An event that announces nothing may be posted, and steps may end by it, if it fits them. -/
theorem Lawful.post {e : Event} (h : Lawful g t)
    (hlog : u.log = t.log ++ [e]) (hwaiting : u.waiting = t.waiting)
    (hbatches : u.batches = t.batches) (hunder : u.underWay.Sublist t.underWay)
    (he : e.startedStep? = none)
    (hend : ∀ step ∈ t.underWay, step ∉ u.underWay →
      step.milestone.ReachedIn [e] ∨ FailedIn [e])
    (hearn : ∀ k, e.milestone? = some k → ∃ step ∈ t.underWay, step.milestone = k ∧
      step ∉ u.underWay) : Lawful g u := by
  have hold : t.log ⊆ u.log := by simp [hlog]
  have hnew : [e] ⊆ u.log := by simp [hlog]
  have hstarted : startedIn u.log = startedIn t.log := by
    rw [hlog, startedIn_append, startedIn_singleton_of_none he, List.append_nil]
  refine ⟨?_, ?_, ?_, ?_, ?_, ?_⟩
  · intro step hs
    rw [hstarted, hwaiting] at hs
    exact (h.allowed step hs).mono hold
  · rw [hstarted, hwaiting]
    exact h.once
  · rw [hstarted]
    exact hunder.trans h.started
  · intro step hs
    rw [hstarted] at hs
    rcases h.ended step hs with hu | hr | hf
    · by_cases hstill : step ∈ u.underWay
      · exact .inl hstill
      · rcases hend step hu hstill with hr | hf
        · exact .inr (.inl (hr.mono hnew))
        · exact .inr (.inr (hf.mono hnew))
    · exact .inr (.inl (hr.mono hold))
    · exact .inr (.inr (hf.mono hold))
  · rintro k ⟨e', he', hk⟩
    rw [hlog, List.mem_append, List.mem_singleton] at he'
    rw [hstarted]
    rcases he' with he' | rfl
    · obtain ⟨step, hs, hm, hnot⟩ := h.earned k ⟨e', he', hk⟩
      exact ⟨step, hs, hm, fun hu => hnot (hunder.subset hu)⟩
    · obtain ⟨step, hs, hm, hnot⟩ := hearn k hk
      exact ⟨step, h.started.subset hs, hm, hnot⟩
  · rw [hstarted, hwaiting, hbatches]
    exact h.counted

theorem Lawful.nodup_underWay (h : Lawful g t) : t.underWay.Nodup := by
  have hn : (startedIn t.log ++ t.waiting).Nodup := List.Nodup.of_map _ h.once
  exact (hn.sublist (List.sublist_append_left _ _)).sublist h.started

/-- A step may end by an event that tells of its milestone, or that makes the task fail. -/
theorem Lawful.close {e : Event} (h : Lawful g t) (hrun : step ∈ t.underWay)
    (he : e.startedStep? = none) (hend : step.milestone.ReachedIn [e] ∨ FailedIn [e])
    (hearn : ∀ k, e.milestone? = some k → step.milestone = k) : Lawful g (t.close step e) := by
  refine h.post rfl rfl rfl (List.erase_sublist ..) he ?_ ?_
  · intro other ho hnot
    by_cases heq : other = step
    · rw [heq]
      exact hend
    · exact absurd ((List.mem_erase_of_ne heq).2 ho) hnot
  · intro k hk
    refine ⟨step, hrun, hearn k hk, ?_⟩
    rw [close_underWay, h.nodup_underWay.mem_erase_iff]
    simp

/-- What happens inside a batch keeps the law. -/
theorem Lawful.work (h : Lawful g t) (hw : Work t u) : Lawful g u := by
  cases hw with
  | @announce step rest next =>
    have happ : startedIn (t.log ++ [.stepStarting step]) ++ rest =
        startedIn t.log ++ t.waiting := by
      simp [next]
    have hold : t.log ⊆ t.log ++ [Event.stepStarting step] := by simp
    refine ⟨?_, ?_, ?_, ?_, ?_, ?_⟩
    · intro other ho
      rw [post_log, happ] at ho
      exact (h.allowed other ho).mono hold
    · rw [post_log, happ]
      exact h.once
    · rw [post_log, startedIn_append]
      exact h.started.append (.refl _)
    · intro other ho
      rw [post_log, startedIn_append, List.mem_append] at ho
      rcases ho with ho | ho
      · rcases h.ended other ho with hu | hr | hf
        · exact .inl (List.mem_append_left _ hu)
        · exact .inr (.inl (hr.mono hold))
        · exact .inr (.inr (hf.mono hold))
      · exact .inl (List.mem_append_right _ ho)
    · rintro k ⟨e, he, hk⟩
      rw [post_log, List.mem_append, List.mem_singleton] at he
      rcases he with he | rfl
      · obtain ⟨other, ho, hm, hnot⟩ := h.earned k ⟨e, he, hk⟩
        refine ⟨other, by simp [mem_startedIn.1 ho], hm, ?_⟩
        -- The step that is announced was not started before, so it is not this one.
        intro hu
        rcases List.mem_append.1 hu with hu | hu
        · exact hnot hu
        · rw [List.mem_singleton.1 hu] at ho
          exact h.not_started_of_waiting (by simp [next]) ho
      · simp [Event.milestone?] at hk
    · have hc := h.counted
      rw [next, List.length_cons] at hc
      simp only [post_log, post_batches, startedIn_append, startedIn_singleton_stepStarting,
        List.length_append, List.length_singleton]
      omega
  | report running own =>
    refine h.post rfl rfl rfl (.refl _) own.startedStep? ?_ ?_
    · intro step hs hnot
      exact absurd hs hnot
    · intro k hk
      rw [own.milestone?] at hk
      simp at hk
  | @finish step e running own =>
    refine h.close running own.startedStep? ?_ fun k hk => own.milestone_eq hk
    rcases own with hs | hf
    · exact .inl ⟨_, List.mem_singleton_self _, hs.milestone?⟩
    · have hteardown := h.isTeardown (h.started.subset running)
      exact .inr ⟨_, List.mem_singleton_self _, hf.isTaskFailure hteardown⟩
  | crash running =>
    refine h.close running rfl (.inr ⟨_, List.mem_singleton_self _, rfl⟩) ?_
    intro k hk
    simp [Execution.crashEvent, Event.milestone?] at hk

/-- An event of the loop itself keeps the law. -/
theorem Lawful.remark {e : Event} (h : Lawful g t) (hlog : u.log = t.log ++ [e])
    (hwaiting : u.waiting = t.waiting) (hunder : u.underWay = t.underWay)
    (hbatches : u.batches = t.batches) (he : e.startedStep? = none)
    (hk : e.milestone? = none) : Lawful g u := by
  refine h.post hlog hwaiting hbatches (hunder ▸ .refl _) he ?_ ?_
  · intro step hs hnot
    exact absurd (hunder ▸ hs) hnot
  · intro k hk'
    rw [hk] at hk'
    simp at hk'

/-- A step that is planned between two batches is there for something that no earlier step was
there for: a preparation would be the same step, and a stage would have been reached. -/
theorem Lawful.milestone_ne_of_planned (hg : g.WellFormed) (h : Lawful g t) (hi : t.IsIdle)
    {old new : Step} (hold : old ∈ startedIn t.log)
    (hnew : new ∈ g.nextSteps (.ofEvents t.log)) : old.milestone ≠ new.milestone := by
  intro hm
  obtain ⟨hf, hexit, hwanted, -⟩ := Graph.mem_nextSteps hnew
  rcases Graph.wanted_cases hwanted with ⟨hp, hall⟩ | ⟨k, -, hstep⟩
  · have hsame : new = old :=
      (hall t.log).eq_of_isPreparation (h.allowed old (List.mem_append_left _ hold)) hp hm.symm
    exact Graph.not_started_of_mem_nextSteps hg hnew (hsame ▸ mem_startedIn.1 hold)
  · have hr := h.reachedIn_of_started hi hf hold
    rw [hm] at hr
    exact Graph.not_reachedIn_of_containerStep? hstep hexit hr

/-- No two steps of a batch are there for the same thing. -/
theorem nodup_milestone_of_dispatch {events : List Event} {steps : List Step}
    (hg : m.graph.WellFormed) (h : m.next events = .dispatch steps) :
    (steps.map Step.milestone).Nodup := by
  obtain ⟨-, rfl⟩ := Machine.next_dispatch h
  have hsub := m.limited_sublist (m.graph.nextSteps (.ofEvents events))
  refine List.Nodup.map_on ?_ (Graph.nodup_nextSteps.sublist hsub)
  intro a ha b hb hab
  exact Graph.eq_of_mem_nextSteps hg (hsub.subset ha) (hsub.subset hb) hab

/-- A new batch repeats nothing. -/
theorem Lawful.dispatch {steps : List Step} (hg : m.graph.WellFormed) (h : Lawful m.graph t)
    (hi : t.IsIdle) (hd : m.next t.log = .dispatch steps) (hlog : u.log = t.log)
    (hwaiting : u.waiting = steps) (hunder : u.underWay = t.underWay)
    (hbatches : u.batches = t.batches + 1) : Lawful m.graph u := by
  obtain ⟨hne, rfl⟩ := Machine.next_dispatch hd
  have hsub := m.limited_sublist (m.graph.nextSteps (.ofEvents t.log))
  have hplan : ∀ step ∈ u.waiting, step ∈ m.graph.nextSteps (.ofEvents t.log) := by
    intro step hs
    rw [hwaiting] at hs
    exact hsub.subset hs
  refine ⟨?_, ?_, ?_, ?_, ?_, ?_⟩
  · intro step hs
    rw [hlog] at hs ⊢
    rcases List.mem_append.1 hs with hs | hs
    · exact h.allowed step (List.mem_append_left _ hs)
    · exact Graph.allows_of_mem_nextSteps hg (hplan step hs)
  · rw [hlog, List.map_append, List.nodup_append]
    refine ⟨?_, ?_, ?_⟩
    · have hn := h.once
      rwa [hi.1, List.append_nil] at hn
    · rw [hwaiting]
      exact nodup_milestone_of_dispatch hg hd
    · intro k hk k' hk' hkk
      obtain ⟨old, hold, rfl⟩ := List.mem_map.1 hk
      obtain ⟨new, hnew, rfl⟩ := List.mem_map.1 hk'
      exact h.milestone_ne_of_planned hg hi hold (hplan new hnew) hkk
  · rw [hlog, hunder]
    exact h.started
  · rw [hlog, hunder]
    exact h.ended
  · rw [hlog, hunder]
    exact h.earned
  · have hc := h.counted
    have hpos : 0 < u.waiting.length := by
      rw [hwaiting]
      exact List.length_pos_iff.2 (m.limited_ne_nil hne)
    rw [hlog, hbatches]
    rw [hi.1, List.length_nil] at hc
    omega

/-- Every move keeps the law. -/
theorem Lawful.move (hg : m.graph.WellFormed) (h : Lawful m.graph t) (hm : Move m t u) :
    Lawful m.graph u := by
  cases hm with
  | work inside => exact h.work inside
  | cancel | pass => exact ⟨h.allowed, h.once, h.started, h.ended, h.earned, h.counted⟩
  | notice | check | stall => exact h.remark rfl rfl rfl rfl rfl rfl
  | dispatch idle _ decision => exact h.dispatch hg idle decision rfl rfl rfl rfl

/-- **Every moment of a run is lawful.** -/
theorem Reachable.lawful (hg : m.graph.WellFormed) (h : Reachable m t) : Lawful m.graph t := by
  induction h with
  | refl => exact lawful_start m.graph
  | tail _ hm ih => exact ih.move hg hm

end Stevedore.Moment
