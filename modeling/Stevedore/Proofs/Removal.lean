import Stevedore.Proofs.Account
import Stevedore.Proofs.Gating
import Stevedore.Proofs.ManualCommands
import Stevedore.Proofs.Once
import Stevedore.Proofs.SceneRun

/-!
Cleanup removes what the run has made, each thing once and in order.

The planner of a cleanup looks at events only, so that everything depends on what steps tell. Of a
container of the task its step tells as soon as the engine has made it; what is made for the caches
is removed by the step that made it. Hence the containers that were made are those that were told of
and those that were removed already (`Reachable.balanced`). Nothing is taken down in a run stage
otherwise, so the plan has a removal for each container that was told of, and cleanup asks for just
this (`Cleans.undoes`). Together every container that was made is asked to be removed once
(`CleanedUp.perm_removals`), and nothing else is.
-/

namespace Stevedore

/-! ## The plan for a run -/

theorem Step.isTeardown_of_milestone_eq {step other : Step}
    (h : step.milestone = other.milestone) : step.isTeardown = other.isTeardown := by
  cases step <;> cases other <;> first | rfl | cases h

namespace Moment

variable {m : Machine} {t : Moment} {c : String} {handle : Handle} {network : Network}

/-- In the run stage nothing is taken down. -/
theorem Reachable.not_reachedIn_of_isTeardown (hg : m.graph.WellFormed) (h : Reachable m t)
    {s : Step} (hs : s.isTeardown = true) : ¬ s.milestone.ReachedIn t.log := by
  intro hr
  obtain ⟨other, ho, hm, -⟩ := (h.lawful hg).earned _ hr
  have hother := (h.lawful hg).isTeardown ho
  rw [Step.isTeardown_of_milestone_eq hm, hs] at hother
  simp at hother

/-- What is told once is told last. -/
theorem Reachable.lastIn_iff (hg : m.graph.WellFormed) (h : Reachable m t) {k : Milestone}
    {e : Event} (hk : e.milestone? = some k) : k.LastIn e t.log ↔ e ∈ t.log := by
  constructor
  · exact Milestone.LastIn.mem
  · intro he
    obtain ⟨last, hlast⟩ := Milestone.exists_lastIn.2 ⟨e, he, hk⟩
    have hlk := (List.mem_filter.1 (List.mem_of_getLast? hlast)).2
    rw [h.eq_of_milestone? hg he hlast.mem hk (of_decide_eq_true hlk)]
    exact hlast

/-- The plan removes every container that was created. -/
theorem Reachable.removal_mem_iff (hg : m.graph.WellFormed) (h : Reachable m t) :
    .removeContainer c handle ∈ (m.graph.teardownPlan (.ofEvents t.log)).steps ↔
      .containerCreated c handle ∈ t.log := by
  rw [Graph.mem_steps_teardownPlan hg fun _ _ => h.mem_names hg]
  have hnot : ¬ (Milestone.removed c).ReachedIn t.log :=
    h.not_reachedIn_of_isTeardown hg (s := .removeContainer c handle) rfl
  have hlast := h.lastIn_iff hg (e := .containerCreated c handle) rfl
  constructor
  · rintro ⟨-, hrecorded⟩
    exact hlast.1 hrecorded
  · intro hc
    exact ⟨⟨⟨_, hc, rfl⟩, hnot⟩, hlast.2 hc⟩

/-- The plan stops every container that was started and has not exited. -/
theorem Reachable.stop_mem_iff (hg : m.graph.WellFormed) (h : Reachable m t) :
    .stopContainer c handle ∈ (m.graph.teardownPlan (.ofEvents t.log)).steps ↔
      .containerCreated c handle ∈ t.log ∧ .containerStarted c ∈ t.log ∧
        ∀ exitCode, .containerExited c exitCode ∉ t.log := by
  rw [Graph.mem_steps_teardownPlan hg fun _ _ => h.mem_names hg]
  have hremoved : ¬ (Milestone.removed c).ReachedIn t.log :=
    h.not_reachedIn_of_isTeardown hg (s := .removeContainer c handle) rfl
  have hstopped : ¬ (Milestone.stopped c).ReachedIn t.log :=
    h.not_reachedIn_of_isTeardown hg (s := .stopContainer c handle) rfl
  have hlast := h.lastIn_iff hg (e := .containerCreated c handle) rfl
  have hstarted : (Milestone.started c).ReachedIn t.log ↔ .containerStarted c ∈ t.log :=
    Milestone.reachedIn_iff rfl
  have hexited : (Milestone.exited c).ReachedIn t.log ↔
      ∃ exitCode, .containerExited c exitCode ∈ t.log := by
    constructor
    · rintro ⟨e, he, hk⟩
      cases e <;> simp only [Event.milestone?, Option.some.injEq, Milestone.exited.injEq,
        reduceCtorEq] at hk
      exact ⟨_, hk ▸ he⟩
    · rintro ⟨exitCode, he⟩
      exact ⟨_, he, rfl⟩
  constructor
  · rintro ⟨⟨-, hrunning, hnot, -⟩, hrecorded⟩
    refine ⟨hlast.1 hrecorded, hstarted.1 hrunning, ?_⟩
    intro exitCode he
    exact hnot (hexited.2 ⟨exitCode, he⟩)
  · rintro ⟨hc, hrunning, hnot⟩
    refine ⟨⟨⟨⟨_, hc, rfl⟩, hremoved⟩, hstarted.2 hrunning, ?_, hstopped⟩, hlast.2 hc⟩
    intro hr
    obtain ⟨exitCode, he⟩ := hexited.1 hr
    exact hnot exitCode he

/-- The plan deletes the network if it was created. -/
theorem Reachable.networkDeletion_mem_iff (hg : m.graph.WellFormed) (h : Reachable m t) :
    .deleteNetwork network ∈ (m.graph.teardownPlan (.ofEvents t.log)).steps ↔
      .networkCreated network ∈ t.log := by
  rw [Graph.mem_steps_teardownPlan hg fun _ _ => h.mem_names hg]
  have hnot : ¬ Milestone.networkDeleted.ReachedIn t.log :=
    h.not_reachedIn_of_isTeardown hg (s := .deleteNetwork network) rfl
  have hlast := h.lastIn_iff hg (e := .networkCreated network) rfl
  constructor
  · rintro ⟨-, hrecorded⟩
    exact hlast.1 hrecorded
  · intro hn
    exact ⟨⟨⟨_, hn, rfl⟩, hnot⟩, hlast.2 hn⟩

end Moment

/-! ## What a run stage has done -/

theorem mem_created {record : List Deed} {c : String} {handle : Handle} :
    (c, handle) ∈ record.filterMap Deed.created? ↔
      .containerCreated c handle ∈ eventsOf record := by
  rw [mem_eventsOf, List.mem_filterMap]
  constructor
  · rintro ⟨d, hd, hc⟩
    unfold Deed.created? at hc
    split at hc
    · obtain ⟨rfl, rfl⟩ := Prod.mk.inj (Option.some.inj hc)
      exact hd
    · simp at hc
  · intro h
    exact ⟨_, h, rfl⟩

/-- If no milestone is told twice, no container is. -/
theorem nodup_created {record : List Deed}
    (h : ((eventsOf record).filterMap Event.milestone?).Nodup) :
    (record.filterMap Deed.created?).Nodup := by
  rw [eventsOf, List.filterMap_filterMap, List.Nodup, List.pairwise_filterMap] at h
  rw [List.Nodup, List.pairwise_filterMap]
  refine h.imp ?_
  intro d d' hne entry hd entry' hd' heq
  unfold Deed.created? at hd hd'
  split at hd <;> split at hd' <;> simp only [Option.some.injEq, reduceCtorEq] at hd hd'
  subst hd hd'
  exact hne _ rfl _ rfl (congrArg Milestone.created (Prod.mk.inj heq).1)

/-- The container that is asked to be removed. -/
def EngineCall.removal? : EngineCall → Option Handle
  | removeContainer handle => some handle
  | _ => none

/-- The container that the step removes. -/
def Step.removed? : Step → Option (String × Handle)
  | removeContainer c handle => some (c, handle)
  | _ => none

theorem Step.removed?_eq_some {step : Step} {entry : String × Handle} :
    step.removed? = some entry ↔ step = .removeContainer entry.1 entry.2 := by
  cases step <;> simp [removed?, Prod.ext_iff]

/-- A remark tells of nothing that was made. -/
theorem Event.IsRemark.makes {e : Event} (h : e.IsRemark) : e.makes = false := by
  cases e <;> first | rfl | exact h.elim

theorem filterMap_removal? (record : List Deed) :
    record.filterMap Deed.removal? = (callsOf record).filterMap EngineCall.removal? := by
  rw [callsOf, List.filterMap_filterMap]
  refine List.filterMap_congr ?_
  intro d _
  cases d with
  | asked call => cases call <;> rfl
  | posted | answered | changed => rfl

theorem count_removeContainer (record : List Deed) (handle : Handle) :
    (callsOf record).count (.removeContainer handle) =
      (record.filterMap Deed.removal?).count handle := by
  rw [filterMap_removal?, List.count_filterMap, List.count]
  refine List.countP_congr ?_
  intro call _
  cases call <;> simp [EngineCall.removal?]

namespace Scene

/-- At the end of a run stage its plan removes what was told to have been created. -/
theorem Reachable.removal_mem_iff {w : Worker} {m : Machine} {s : Scene} {c : String}
    {handle : Handle} (hw : w.graph = m.graph) (hg : m.graph.WellFormed) (h : Reachable w m s) :
    .removeContainer c handle ∈ (m.graph.teardownPlan (.ofEvents s.log)).steps ↔
      .containerCreated c handle ∈ s.log := by
  obtain ⟨t, ht, hmirrors⟩ := h.mirrors hw hg
  rw [← hmirrors.log]
  exact ht.removal_mem_iff hg

theorem Reachable.networkDeletion_mem_iff {w : Worker} {m : Machine} {s : Scene} {network : Network}
    (hw : w.graph = m.graph) (hg : m.graph.WellFormed) (h : Reachable w m s) :
    .deleteNetwork network ∈ (m.graph.teardownPlan (.ofEvents s.log)).steps ↔
      .networkCreated network ∈ s.log := by
  obtain ⟨t, ht, hmirrors⟩ := h.mirrors hw hg
  rw [← hmirrors.log]
  exact ht.networkDeletion_mem_iff hg

section RunStage

variable {w : Worker} {m : Machine} {s : Scene} {d : Deed} {c : String} {handle : Handle}
  {call : EngineCall} (hw : w.graph = m.graph) (hg : m.graph.WellFormed) (h : Reachable w m s)
  (hi : s.IsIdle)

include hw hg h hi

/-- When everybody is done the record is made up of remarks and of what was done for steps that
were allowed, each from its beginning to its end. -/
theorem Reachable.parts : ∃ remarks hands, Follows w {} remarks hands s.record s ∧
    ∀ hand ∈ hands, (w.perform hand.step).Through hand.history () ∧
      m.graph.Allows s.log hand.step := by
  obtain ⟨t, ht, hmirrors⟩ := h.mirrors hw hg
  obtain ⟨remarks, hands, record, hfollows⟩ := h.since
  obtain rfl : s.record = record := by simpa using hfollows.record_eq
  refine ⟨remarks, hands, hfollows, ?_⟩
  intro hand hhand
  have hmem : hand ∈ s.hands := by simpa [hfollows.hands_eq] using hhand
  have hposted : Deed.posted (.stepStarting hand.step) ∈ s.record := by
    refine hfollows.shared.mem_iff.2 (List.mem_append_left _ ?_)
    exact List.mem_map_of_mem (hfollows.announced hand hhand)
  have hstarted : hand.step ∈ startedIn t.log := by
    rw [hmirrors.log]
    exact mem_startedIn.2 (mem_eventsOf.2 hposted)
  refine ⟨(hfollows.faithful hand hhand).through (hi.2 hand hmem), ?_⟩
  rw [← hmirrors.log]
  exact (ht.lawful hg).allowed hand.step (List.mem_append_left _ hstarted)

/-- Whatever is on record is a remark or was done for some step. -/
theorem Reachable.deed_cases (hd : d ∈ s.record) :
    (∃ e, d = .posted e ∧ e.IsRemark) ∨ ∃ step history, d ∈ history ∧
      history.Sublist s.record ∧ (w.perform step).Through history () ∧
        m.graph.Allows s.log step := by
  obtain ⟨remarks, hands, hfollows, hparts⟩ := h.parts hw hg hi
  refine (hfollows.deed_cases hd).imp_right ?_
  rintro ⟨hand, hhand, hd⟩
  obtain ⟨hthrough, hallowed⟩ := hparts hand hhand
  exact ⟨hand.step, hand.history, hd, hfollows.inside hand hhand, hthrough, hallowed⟩

/-- **No run stage forgets a container**: what was made was told of or removed again. -/
theorem Reachable.balanced : Balanced s.record := by
  obtain ⟨remarks, hands, hfollows, hparts⟩ := h.parts hw hg hi
  refine Balanced.perm (.append (.of_none ?_) (.flatMap ?_)) hfollows.shared.symm
  · intro d hd
    obtain ⟨e, he, rfl⟩ := List.mem_map.1 hd
    have hremark := hfollows.remarked e he
    cases e <;> first | exact hremark.elim | exact ⟨rfl, rfl, rfl⟩
  · intro hand hhand
    obtain ⟨hthrough, hallowed⟩ := hparts hand hhand
    exact Worker.balanced_perform (hw ▸ hg) hallowed.isTeardown hthrough

theorem Reachable.mem_made_iff :
    (some c, handle) ∈ s.record.filterMap Deed.made? ↔ .containerCreated c handle ∈ s.log := by
  have hbalanced := h.balanced hw hg hi
  rw [hbalanced.mem_iff, log, ← mem_created]
  simp

theorem Reachable.allows_of_asked (hd : .asked call ∈ s.record) :
    ∃ step, m.graph.Allows s.log step ∧ step.MayAsk call := by
  obtain ⟨e, heq, -⟩ | ⟨step, history, hd, -, hthrough, hallowed⟩ := h.deed_cases hw hg hi hd
  · simp at heq
  · exact ⟨step, hallowed, hthrough.within (Worker.tells_perform (hw ▸ hg) step).within _ hd⟩

/-- No step of a run stage stops anything. -/
theorem Reachable.not_asked_stop (handle : Handle) :
    .asked (.stopContainer handle) ∉ s.record := by
  intro hd
  obtain ⟨step, hallowed, hmay⟩ := h.allows_of_asked hw hg hi hd
  cases step <;> first | exact hallowed.elim | exact hmay.elim

theorem Reachable.not_asked_deleteNetwork (network : Network) :
    .asked (.deleteNetwork network) ∉ s.record := by
  intro hd
  obtain ⟨step, hallowed, hmay⟩ := h.allows_of_asked hw hg hi hd
  cases step <;> first | exact hallowed.elim | exact hmay.elim

/-- The network is told of when it was made. -/
theorem Reachable.network_iff {network : Network} :
    (∃ name driver, .answered (.createNetwork name driver) (.ok network) ∈ s.record) ↔
      .networkCreated network ∈ s.log := by
  rw [log, mem_eventsOf]
  constructor
  · rintro ⟨name, driver, hd⟩
    obtain ⟨e, heq, -⟩ | ⟨step, history, hd, hsub, hthrough, -⟩ := h.deed_cases hw hg hi hd
    · simp at heq
    · exact hsub.subset ((Worker.network_perform (hw ▸ hg) hthrough).1 ⟨name, driver, hd⟩)
  · intro hd
    obtain ⟨e, heq, hremark⟩ | ⟨step, history, hd, hsub, hthrough, -⟩ := h.deed_cases hw hg hi hd
    · obtain rfl := Deed.posted.inj heq
      exact hremark.elim
    · obtain ⟨name, driver, hanswered⟩ := (Worker.network_perform (hw ▸ hg) hthrough).2 hd
      exact ⟨name, driver, hsub.subset hanswered⟩

/-- Where no handle is given twice, what the engine says of a container is what is told of it: this
is the same for steps that start a container and for those that wait for its exit. -/
theorem Reachable.answered_iff_told (hn : ((s.record.filterMap Deed.made?).map (·.2)).Nodup)
    (stage : String → Handle → Step) (answer : Handle → Deed) (told : String → Event)
    (known : ∀ {c handle}, m.graph.Allows s.log (stage c handle) →
      .containerCreated c handle ∈ s.log)
    (tells : ∀ {step history handle}, (w.perform step).Through history () →
      answer handle ∈ history → (∃ c, step = stage c handle ∧ .posted (told c) ∈ history) ∨
        (none, handle) ∈ history.filterMap Deed.made?)
    (earns : ∀ {step history c}, (w.perform step).Through history () → .posted (told c) ∈ history →
      ∃ handle, step = stage c handle ∧ answer handle ∈ history)
    (hanswer : ∀ handle e, answer handle ≠ .posted e) (htold : ∀ c, ¬ (told c).IsRemark)
    (hc : .containerCreated c handle ∈ s.log) : answer handle ∈ s.record ↔ told c ∈ s.log := by
  have hmade := (h.mem_made_iff hw hg hi).2 hc
  constructor
  · intro hd
    obtain ⟨e, heq, -⟩ | ⟨step, history, hd, hsub, hthrough, hallowed⟩ := h.deed_cases hw hg hi hd
    · exact absurd heq (hanswer handle e)
    obtain ⟨d, rfl, hposted⟩ | hunknown := tells hthrough hd
    · have hother := (h.mem_made_iff hw hg hi).2 (known hallowed)
      obtain ⟨hcd, -⟩ := Prod.mk.inj (List.inj_on_of_nodup_map hn hmade hother rfl)
      rw [log, mem_eventsOf, Option.some.inj hcd]
      exact hsub.subset hposted
    · -- What is made for the caches has a handle of its own.
      have hother := (hsub.filterMap Deed.made?).subset hunknown
      have heq := List.inj_on_of_nodup_map hn hmade hother rfl
      simp at heq
  · intro hd
    obtain ⟨e, heq, hremark⟩ | ⟨step, history, hd, hsub, hthrough, hallowed⟩ :=
      h.deed_cases hw hg hi (mem_eventsOf.1 hd)
    · exact absurd (Deed.posted.inj heq ▸ hremark) (htold c)
    obtain ⟨other, rfl, hanswered⟩ := earns hthrough hd
    obtain ⟨t, ht, hmirrors⟩ := h.mirrors hw hg
    have hother := known hallowed
    rw [← hmirrors.log] at hc hother
    rw [ht.handle_unique hg hc hother]
    exact hsub.subset hanswered

theorem Reachable.started_iff (hn : ((s.record.filterMap Deed.made?).map (·.2)).Nodup)
    (hc : .containerCreated c handle ∈ s.log) :
    .answered (.startContainer handle) (.ok ()) ∈ s.record ↔ .containerStarted c ∈ s.log :=
  h.answered_iff_told hw hg hi hn .startContainer
    (fun handle => .answered (.startContainer handle) (.ok ())) .containerStarted And.right
    (fun hthrough hd => Worker.started_of_answered (hw ▸ hg) hthrough hd)
    (fun hthrough hd => Worker.answered_of_started (hw ▸ hg) hthrough hd) nofun (fun _ => id) hc

theorem Reachable.exited_iff (hn : ((s.record.filterMap Deed.made?).map (·.2)).Nodup)
    (hc : .containerCreated c handle ∈ s.log) {exitCode : Int} :
    .answered (.waitForExit handle) (.ok exitCode) ∈ s.record ↔
      .containerExited c exitCode ∈ s.log :=
  h.answered_iff_told hw hg hi hn .runContainer
    (fun handle => .answered (.waitForExit handle) (.ok exitCode)) (.containerExited · exitCode)
    (fun hallowed => hallowed.2.1)
    (fun hthrough hd => Worker.exited_of_answered (hw ▸ hg) hthrough hd)
    (fun hthrough hd => Worker.answered_of_exited (hw ▸ hg) hthrough hd) nofun (fun _ => id) hc

end RunStage

/-! ## What cleanup does -/

/-- Whether the record has what is done when these steps take things down. -/
structure Undoes (steps : List Step) (record : List Deed) : Prop where
  calls : (callsOf record).Perm (steps.filterMap Step.call?)
  made : record.filterMap Deed.made? = []
  answered : ∀ call reply, .answered call reply ∈ record → ∃ step ∈ steps, step.call? = some call
  /-- No event tells that something was made. -/
  harmless : ∀ e, .posted e ∈ record → e.makes = false
  /-- A step that tells of its end has done what it is there for. -/
  earned : ∀ e k, .posted e ∈ record → e.milestone? = some k → ∃ step ∈ steps,
    step.milestone = k ∧ ∀ call, step.call? = some call →
      ∃ answer, .answered call (.ok answer) ∈ record

namespace Undoes

variable {steps steps' : List Step} {record record' : List Deed}

theorem append (h : Undoes steps record) (h' : Undoes steps' record') :
    Undoes (steps ++ steps') (record ++ record') where
  calls := by
    rw [callsOf_append, List.filterMap_append]
    exact h.calls.append h'.calls
  made := by rw [List.filterMap_append, h.made, h'.made, List.append_nil]
  answered := by
    intro call reply hd
    rcases List.mem_append.1 hd with hd | hd
    · obtain ⟨step, hs, hcall⟩ := h.answered call reply hd
      exact ⟨step, List.mem_append_left _ hs, hcall⟩
    · obtain ⟨step, hs, hcall⟩ := h'.answered call reply hd
      exact ⟨step, List.mem_append_right _ hs, hcall⟩
  harmless := by
    intro e hd
    rcases List.mem_append.1 hd with hd | hd
    · exact h.harmless e hd
    · exact h'.harmless e hd
  earned := by
    intro e k hd hk
    rcases List.mem_append.1 hd with hd | hd
    · obtain ⟨step, hs, hmilestone, hanswers⟩ := h.earned e k hd hk
      refine ⟨step, List.mem_append_left _ hs, hmilestone, fun call hcall => ?_⟩
      exact (hanswers call hcall).imp fun _ => List.mem_append_left _
    · obtain ⟨step, hs, hmilestone, hanswers⟩ := h'.earned e k hd hk
      refine ⟨step, List.mem_append_right _ hs, hmilestone, fun call hcall => ?_⟩
      exact (hanswers call hcall).imp fun _ => List.mem_append_right _

theorem perm (h : Undoes steps record) (hp : record.Perm record') : Undoes steps record' where
  calls := (hp.filterMap _).symm.trans h.calls
  made := by
    have hmade := hp.filterMap Deed.made?
    rw [h.made] at hmade
    exact hmade.nil_eq.symm
  answered := fun call reply hd => h.answered call reply (hp.mem_iff.2 hd)
  harmless := fun e hd => h.harmless e (hp.mem_iff.2 hd)
  earned := by
    intro e k hd hk
    obtain ⟨step, hs, hmilestone, hanswers⟩ := h.earned e k (hp.mem_iff.2 hd) hk
    refine ⟨step, hs, hmilestone, fun call hcall => ?_⟩
    exact (hanswers call hcall).imp fun _ => hp.mem_iff.1

/-- Remarks do nothing. -/
theorem of_remarks {remarks : List Event} (h : ∀ e ∈ remarks, e.IsRemark) :
    Undoes [] (remarks.map .posted) where
  calls := by
    have hnone : callsOf (remarks.map .posted) = [] := by
      simp [callsOf, List.filterMap_map, Function.comp_def, Deed.call?]
    rw [hnone]
    exact .refl _
  made := by simp [List.filterMap_map, Function.comp_def, Deed.made?]
  answered := by simp
  harmless := by
    intro e hd
    exact (h e (by simpa using hd)).makes
  earned := by
    intro e k hd hk
    rw [(h e (by simpa using hd)).milestone?] at hk
    simp at hk

/-- A step that takes something down. -/
theorem of_through {w : Worker} {step : Step} {history : List Deed} (hg : w.graph.WellFormed)
    (hs : step.isTeardown = true) (h : (w.perform step).Through history ()) :
    Undoes [step] history := by
  have hends : ∀ e, .posted e ∈ history → step.EndsWith e := by
    intro e hd
    refine (h.within (Worker.tells_perform hg step).within _ hd).resolve_left ?_
    intro hown
    rw [hown.isTeardown] at hs
    simp at hs
  refine ⟨?_, Worker.made_teardown hs h, ?_, fun e hd => (hends e hd).makes hs, ?_⟩
  · rw [Worker.callsOf_teardown hs h]
    cases hcall : step.call? <;> simp [hcall]
  · intro call reply hd
    exact ⟨step, List.mem_singleton_self step, Worker.call?_of_answered hs h hd⟩
  · intro e k hd hk
    rcases hends e hd with hend | hend
    · exact ⟨step, List.mem_singleton_self step, Option.some.inj (hend.milestone?.symm.trans hk),
        fun call hcall => Worker.answered_of_succeeds hs h hcall hd hend⟩
    · rw [hend.milestone?] at hk
      simp at hk

theorem flatMap {hands : List Hand} (h : ∀ hand ∈ hands, Undoes [hand.step] hand.history) :
    Undoes (hands.map Hand.step) (hands.flatMap Hand.history) := by
  induction hands with
  | nil => exact @of_remarks [] (by simp)
  | cons hand hands ih =>
    rw [List.flatMap_cons, List.map_cons]
    exact (h hand (List.mem_cons_self ..)).append (ih fun other ho => h other (.tail _ ho))

end Undoes

variable {w : Worker} {m : Machine} {s v u : Scene} {groups : List (List Step)} {c : String}
  {handle : Handle}

/-- The record of a cleanup is made up of remarks and of what was done for its steps, each from its
beginning to its end. -/
theorem Cleans.parts (h : Cleans w groups s u) (hs : ∀ hand ∈ s.hands, hand.isDone = true) :
    ∃ remarks hands record, Follows w s remarks hands record u ∧
      hands.map Hand.step = groups.flatten ∧
        ∀ hand ∈ hands, (w.perform hand.step).Through hand.history () := by
  obtain ⟨remarks, hands, record, hfollows⟩ := h.since hs (.refl w s)
  refine ⟨remarks, hands, record, hfollows, ?_, ?_⟩
  · have hall := h.steps
    rw [hfollows.hands_eq, List.map_append] at hall
    exact List.append_cancel_left hall
  · intro hand hhand
    refine (hfollows.faithful hand hhand).through (h.isDone hs hand ?_)
    rw [hfollows.hands_eq]
    exact List.mem_append_right _ hhand

/-- Cleanup adds to the record what its steps do to take things down. -/
theorem Cleans.undoes (hg : w.graph.WellFormed) (h : Cleans w groups s u)
    (hs : ∀ hand ∈ s.hands, hand.isDone = true)
    (ht : ∀ step ∈ groups.flatten, step.isTeardown = true) :
    ∃ record, u.record = s.record ++ record ∧ Undoes groups.flatten record := by
  obtain ⟨remarks, hands, record, hfollows, hsteps, hthrough⟩ := h.parts hs
  refine ⟨record, hfollows.record_eq, .perm ?_ hfollows.shared.symm⟩
  rw [← List.nil_append groups.flatten, ← hsteps]
  refine (Undoes.of_remarks hfollows.remarked).append (.flatMap ?_)
  intro hand hhand
  exact .of_through hg (ht _ (hsteps ▸ List.mem_map_of_mem hhand)) (hthrough hand hhand)

/-- What one of the steps asks for, and no other, is asked for once. -/
theorem Undoes.count_callsOf {steps : List Step} {record : List Deed} {step : Step}
    {call : EngineCall} (h : Undoes steps record) (hn : steps.Nodup) (hs : step ∈ steps)
    (hcall : step.call? = some call)
    (hunique : ∀ other ∈ steps, other.call? = some call → other = step) :
    (callsOf record).count call = 1 := by
  rw [h.calls.count_eq, List.count_filterMap, ← List.count_eq_one_of_mem hn hs, List.count]
  refine List.countP_congr ?_
  intro other ho
  simp only [beq_iff_eq]
  constructor
  · exact hunique other ho
  · rintro rfl
    exact hcall

/-! ## A run that was cleaned up -/

/-- Whether the run stage came to its end in one scene, and cleanup led from there to another. -/
structure CleanedUp (w : Worker) (m : Machine) (s u : Scene) : Prop where
  graph : w.graph = m.graph
  wellFormed : m.graph.WellFormed
  reachable : Reachable w m s
  idle : s.IsIdle
  cleaned : Cleans w (m.graph.teardownPlan (.ofEvents s.log)).groups s u

/-- Whether the engine has started the container and has not told of its exit. -/
def LeftRunning (record : List Deed) (handle : Handle) : Prop :=
  .answered (.startContainer handle) (.ok ()) ∈ record ∧
    ∀ exitCode : Int, .answered (.waitForExit handle) (.ok exitCode) ∉ record

namespace CleanedUp

variable {call : EngineCall} {network : Network}

theorem exists_undoes (h : CleanedUp w m s u) : ∃ record, u.record = s.record ++ record ∧
    Undoes (m.graph.teardownPlan (.ofEvents s.log)).steps record :=
  h.cleaned.undoes (h.graph ▸ h.wellFormed) h.idle.2 fun _ => Graph.isTeardown_of_mem_teardownPlan

/-- What is asked for in different groups is asked for in their order. -/
theorem asked_in_order (h : CleanedUp w m s u) {first second : Step} {call' : EngineCall}
    (he : Earlier (m.graph.teardownPlan (.ofEvents s.log)).groups first second)
    (hcall : first.call? = some call) (hcall' : second.call? = some call') :
    [.asked call, .asked call'].Sublist u.record := by
  obtain ⟨before, after, hgroups, hfirst, hsecond⟩ := he
  have hteardown : ∀ step ∈ (before ++ after).flatten, step.isTeardown = true := by
    rw [← hgroups]
    exact fun _ => Graph.isTeardown_of_mem_teardownPlan
  rw [List.flatten_append] at hteardown
  have hcleaned := h.cleaned
  rw [hgroups] at hcleaned
  obtain ⟨v, hv, hu⟩ := hcleaned.split
  have hg : w.graph.WellFormed := h.graph ▸ h.wellFormed
  obtain ⟨record, hrecord, hundoes⟩ :=
    hv.undoes hg h.idle.2 fun step hs => hteardown step (List.mem_append_left _ hs)
  obtain ⟨record', hrecord', hundoes'⟩ :=
    hu.undoes hg (hv.isDone h.idle.2) fun step hs => hteardown step (List.mem_append_right _ hs)
  have hasked : .asked call ∈ record :=
    mem_callsOf.1 (hundoes.calls.mem_iff.2 (List.mem_filterMap.2 ⟨first, hfirst, hcall⟩))
  have hasked' : .asked call' ∈ record' :=
    mem_callsOf.1 (hundoes'.calls.mem_iff.2 (List.mem_filterMap.2 ⟨second, hsecond, hcall'⟩))
  rw [hrecord', hrecord, List.append_assoc]
  refine .trans ?_ (List.sublist_append_right _ _)
  exact (List.singleton_sublist.2 hasked).append (List.singleton_sublist.2 hasked')

/-! ### The steps of the plan -/

theorem nodup_milestones (h : CleanedUp w m s u) :
    ((m.graph.teardownPlan (.ofEvents s.log)).steps.map Step.milestone).Nodup := by
  obtain ⟨t, ht, hmirrors⟩ := h.reachable.mirrors h.graph h.wellFormed
  rw [← hmirrors.log]
  exact Graph.nodup_milestone_steps h.wellFormed fun _ _ => ht.mem_names h.wellFormed

theorem nodup_steps (h : CleanedUp w m s u) :
    (m.graph.teardownPlan (.ofEvents s.log)).steps.Nodup :=
  h.nodup_milestones.of_map _

/-- Nothing is made during cleanup. -/
theorem made_eq (h : CleanedUp w m s u) :
    u.record.filterMap Deed.made? = s.record.filterMap Deed.made? := by
  obtain ⟨record, hrecord, hundoes⟩ := h.exists_undoes
  rw [hrecord, List.filterMap_append, hundoes.made, List.append_nil]

/-- Nothing is started during cleanup, and no exit is told of. -/
theorem leftRunning_iff (h : CleanedUp w m s u) :
    LeftRunning u.record handle ↔ LeftRunning s.record handle := by
  obtain ⟨record, hrecord, hundoes⟩ := h.exists_undoes
  have hnot : ∀ call reply, (∀ step : Step, step.call? ≠ some call) →
      .answered call reply ∉ record := by
    intro call reply hcall hd
    obtain ⟨step, -, hstep⟩ := hundoes.answered call reply hd
    exact hcall step hstep
  have hstart := hnot (.startContainer handle) (.ok ()) (by rintro ⟨⟩ <;> simp [Step.call?])
  have hexit := fun exitCode : Int => hnot (.waitForExit handle) (.ok exitCode)
    (by rintro ⟨⟩ <;> simp [Step.call?])
  rw [LeftRunning, LeftRunning, hrecord]
  simp only [List.mem_append, hstart, hexit, or_false]

/-- The plan stops what the engine has left running. -/
theorem stop_mem_iff (h : CleanedUp w m s u)
    (hn : ((u.record.filterMap Deed.made?).map (·.2)).Nodup) :
    .stopContainer c handle ∈ (m.graph.teardownPlan (.ofEvents s.log)).steps ↔
      (some c, handle) ∈ u.record.filterMap Deed.made? ∧ LeftRunning u.record handle := by
  rw [h.made_eq] at hn ⊢
  rw [h.reachable.mem_made_iff h.graph h.wellFormed h.idle, h.leftRunning_iff]
  obtain ⟨t, ht, hmirrors⟩ := h.reachable.mirrors h.graph h.wellFormed
  rw [← hmirrors.log, ht.stop_mem_iff h.wellFormed, hmirrors.log]
  refine and_congr_right fun hc => ?_
  rw [LeftRunning, h.reachable.started_iff h.graph h.wellFormed h.idle hn hc]
  simp only [h.reachable.exited_iff h.graph h.wellFormed h.idle hn hc]

/-! ### Removals -/

/-- The plan removes what was told of. -/
theorem perm_planned (h : CleanedUp w m s u) :
    ((m.graph.teardownPlan (.ofEvents s.log)).steps.filterMap Step.removed?).Perm
      (s.record.filterMap Deed.created?) := by
  obtain ⟨t, ht, hmirrors⟩ := h.reachable.mirrors h.graph h.wellFormed
  refine (List.perm_ext_iff_of_nodup ?_ ?_).2 ?_
  · refine h.nodup_steps.filterMap ?_
    intro step other entry hs ho
    rw [Step.removed?_eq_some.1 hs, Step.removed?_eq_some.1 ho]
  · refine nodup_created ?_
    rw [← log, ← hmirrors.log]
    exact ht.told_once h.wellFormed
  · rintro ⟨c, handle⟩
    rw [mem_created, List.mem_filterMap, ← log,
      ← h.reachable.removal_mem_iff h.graph h.wellFormed]
    constructor
    · rintro ⟨step, hs, hremoved⟩
      rwa [← Step.removed?_eq_some.1 hremoved]
    · intro hs
      exact ⟨_, hs, rfl⟩

/-- **Every container that was made is asked to be removed**, as often as it was made, whatever the
engine has replied. -/
theorem perm_removals (h : CleanedUp w m s u) :
    (u.record.filterMap Deed.removal?).Perm ((u.record.filterMap Deed.made?).map (·.2)) := by
  have hbalanced := (h.reachable.balanced h.graph h.wellFormed h.idle).map Prod.snd
  obtain ⟨record, hrecord, hundoes⟩ := h.exists_undoes
  rw [h.made_eq]
  refine List.Perm.trans ?_ hbalanced.symm
  have hcleanup : (record.filterMap Deed.removal?).Perm
      ((s.record.filterMap Deed.created?).map (·.2)) := by
    rw [filterMap_removal?]
    refine (hundoes.calls.filterMap _).trans (.trans (.of_eq ?_) (h.perm_planned.map _))
    rw [List.filterMap_filterMap, List.map_filterMap]
    refine List.filterMap_congr ?_
    intro step _
    cases step <;> rfl
  rw [hrecord, List.filterMap_append]
  refine List.perm_append_comm.trans ((hcleanup.append_right _).trans ?_)
  simp [Function.comp_def]

/-! ### Calls -/

/-- What cleanup asks for is what its steps are there for. -/
theorem asked_iff (h : CleanedUp w m s u) (hcall : .asked call ∉ s.record) :
    .asked call ∈ u.record ↔
      ∃ step ∈ (m.graph.teardownPlan (.ofEvents s.log)).steps, step.call? = some call := by
  obtain ⟨record, hrecord, hundoes⟩ := h.exists_undoes
  rw [hrecord, List.mem_append, or_iff_right hcall, ← mem_callsOf, hundoes.calls.mem_iff,
    List.mem_filterMap]

theorem count_eq_one (h : CleanedUp w m s u) (hcall : .asked call ∉ s.record) {step : Step}
    (hs : step ∈ (m.graph.teardownPlan (.ofEvents s.log)).steps) (hstep : step.call? = some call)
    (hunique : ∀ other ∈ (m.graph.teardownPlan (.ofEvents s.log)).steps,
      other.call? = some call → other = step) : (callsOf u.record).count call = 1 := by
  obtain ⟨record, hrecord, hundoes⟩ := h.exists_undoes
  have hnone : (callsOf s.record).count call = 0 :=
    List.count_eq_zero_of_not_mem (mem_callsOf.not.2 hcall)
  rw [hrecord, callsOf_append, List.count_append, hnone, Nat.zero_add]
  exact hundoes.count_callsOf h.nodup_steps hs hstep hunique

/-- The network goes last. -/
theorem network_last (h : CleanedUp w m s u)
    (hremoval : .asked (.removeContainer handle) ∈ u.record)
    (hdeletion : .asked (.deleteNetwork network) ∈ u.record) :
    [.asked (.removeContainer handle), .asked (.deleteNetwork network)].Sublist u.record := by
  have hnot := h.reachable.not_asked_deleteNetwork h.graph h.wellFormed h.idle network
  obtain ⟨step, hs, hcall⟩ := (h.asked_iff hnot).1 hdeletion
  obtain rfl := Step.call?_eq_deleteNetwork.1 hcall
  by_cases hbefore : .asked (.removeContainer handle) ∈ s.record
  · -- This container was made for the caches.
    obtain ⟨record, hrecord, -⟩ := h.exists_undoes
    rw [hrecord, List.mem_append, or_iff_right hnot] at hdeletion
    rw [hrecord]
    exact (List.singleton_sublist.2 hbefore).append (List.singleton_sublist.2 hdeletion)
  · obtain ⟨first, hfirst, hcall'⟩ := (h.asked_iff hbefore).1 hremoval
    obtain ⟨groups, hgroups⟩ := List.getLast?_eq_some_iff.1 (Graph.getLast?_groups hs)
    refine h.asked_in_order ⟨groups, [[.deleteNetwork network]], hgroups, ?_, by simp⟩ hcall' hcall
    rw [TeardownPlan.steps, hgroups, List.flatten_append, List.mem_append] at hfirst
    refine hfirst.resolve_right ?_
    intro hlast
    obtain rfl : first = .deleteNetwork network := by simpa using hlast
    simp [Step.call?] at hcall'

end CleanedUp

/-! ## Every run that is cleaned up -/

/-- Whether the engine has made the network. -/
def NetworkMade (record : List Deed) (network : Network) : Prop :=
  ∃ name driver, .answered (.createNetwork name driver) (.ok network) ∈ record

/-- Whether all that was made is taken down again, each thing once and in order, and nothing else
is. -/
structure TakenDown (record : List Deed) : Prop where
  removed_once : ∀ handle ∈ (record.filterMap Deed.made?).map (·.2),
    (callsOf record).count (.removeContainer handle) = 1
  removed_made : ∀ handle, .removeContainer handle ∈ callsOf record →
    handle ∈ (record.filterMap Deed.made?).map (·.2)
  /-- A container of the task is stopped if it runs. -/
  stopped_once : ∀ c handle, (some c, handle) ∈ record.filterMap Deed.made? →
    LeftRunning record handle → (callsOf record).count (.stopContainer handle) = 1
  stopped_running : ∀ handle, .stopContainer handle ∈ callsOf record →
    (∃ c, (some c, handle) ∈ record.filterMap Deed.made?) ∧ LeftRunning record handle
  stopped_first : ∀ handle, .stopContainer handle ∈ callsOf record →
    [.asked (.stopContainer handle), .asked (.removeContainer handle)].Sublist record
  network_once : ∀ network, NetworkMade record network →
    (callsOf record).count (.deleteNetwork network) = 1
  network_made : ∀ network, .deleteNetwork network ∈ callsOf record → NetworkMade record network
  network_last : ∀ handle network, .removeContainer handle ∈ callsOf record →
    .deleteNetwork network ∈ callsOf record →
    [.asked (.removeContainer handle), .asked (.deleteNetwork network)].Sublist record

theorem CleanedUp.networkMade_iff (h : CleanedUp w m s u) {network : Network} :
    NetworkMade u.record network ↔ .networkCreated network ∈ s.log := by
  rw [← h.reachable.network_iff h.graph h.wellFormed h.idle]
  obtain ⟨record, hrecord, hundoes⟩ := h.exists_undoes
  have hnot : ∀ name driver, .answered (.createNetwork name driver) (.ok network) ∉ record := by
    intro name driver hd
    obtain ⟨step, -, hcall⟩ := hundoes.answered _ _ hd
    cases step <;> simp [Step.call?] at hcall
  simp only [NetworkMade, hrecord, List.mem_append, hnot, or_false]

namespace CleanedUp

variable {network : Network}

/-- Whatever is stopped is stopped by the plan. -/
theorem stop_of_asked (h : CleanedUp w m s u) (hd : .stopContainer handle ∈ callsOf u.record) :
    ∃ c, .stopContainer c handle ∈ (m.graph.teardownPlan (.ofEvents s.log)).steps := by
  have hnot := h.reachable.not_asked_stop h.graph h.wellFormed h.idle handle
  obtain ⟨step, hs, hcall⟩ := (h.asked_iff hnot).1 (mem_callsOf.1 hd)
  obtain ⟨c, rfl⟩ := Step.call?_eq_stopContainer.1 hcall
  exact ⟨c, hs⟩

theorem count_stop (h : CleanedUp w m s u)
    (hn : ((u.record.filterMap Deed.made?).map (·.2)).Nodup)
    (hmade : (some c, handle) ∈ u.record.filterMap Deed.made?)
    (hrunning : LeftRunning u.record handle) :
    (callsOf u.record).count (.stopContainer handle) = 1 := by
  have hnot := h.reachable.not_asked_stop h.graph h.wellFormed h.idle handle
  refine h.count_eq_one hnot ((h.stop_mem_iff hn).2 ⟨hmade, hrunning⟩) rfl ?_
  intro other ho hcall
  obtain ⟨d, rfl⟩ := Step.call?_eq_stopContainer.1 hcall
  have hother := ((h.stop_mem_iff hn).1 ho).1
  obtain ⟨hname, -⟩ := Prod.mk.inj (List.inj_on_of_nodup_map hn hother hmade rfl)
  rw [Option.some.inj hname]

theorem count_networkDeletion (h : CleanedUp w m s u) (hmade : NetworkMade u.record network) :
    (callsOf u.record).count (.deleteNetwork network) = 1 := by
  have hnot := h.reachable.not_asked_deleteNetwork h.graph h.wellFormed h.idle network
  have hplanned := (h.reachable.networkDeletion_mem_iff h.graph h.wellFormed).2
    (h.networkMade_iff.1 hmade)
  exact h.count_eq_one hnot hplanned rfl fun _ _ => Step.call?_eq_deleteNetwork.1

theorem networkMade_of_asked (h : CleanedUp w m s u)
    (hd : .deleteNetwork network ∈ callsOf u.record) : NetworkMade u.record network := by
  have hnot := h.reachable.not_asked_deleteNetwork h.graph h.wellFormed h.idle network
  obtain ⟨step, hs, hcall⟩ := (h.asked_iff hnot).1 (mem_callsOf.1 hd)
  obtain rfl := Step.call?_eq_deleteNetwork.1 hcall
  exact h.networkMade_iff.2 ((h.reachable.networkDeletion_mem_iff h.graph h.wellFormed).1 hs)

theorem takenDown (h : CleanedUp w m s u)
    (hn : ((u.record.filterMap Deed.made?).map (·.2)).Nodup) : TakenDown u.record where
  removed_once := by
    intro handle hmade
    rw [count_removeContainer, h.perm_removals.count_eq]
    exact List.count_eq_one_of_mem hn hmade
  removed_made := by
    intro handle hd
    rw [← List.count_pos_iff, count_removeContainer, h.perm_removals.count_eq] at hd
    exact List.count_pos_iff.1 hd
  stopped_once := fun _ _ => h.count_stop hn
  stopped_running := by
    intro handle hd
    obtain ⟨c, hs⟩ := h.stop_of_asked hd
    obtain ⟨hmade, hrunning⟩ := (h.stop_mem_iff hn).1 hs
    exact ⟨⟨c, hmade⟩, hrunning⟩
  stopped_first := by
    intro handle hd
    obtain ⟨c, hs⟩ := h.stop_of_asked hd
    exact h.asked_in_order (Graph.earlier_stop_removal hs) rfl rfl
  network_once := fun _ => h.count_networkDeletion
  network_made := fun _ => h.networkMade_of_asked
  network_last := fun _ _ hremoval hdeletion =>
    h.network_last (mem_callsOf.1 hremoval) (mem_callsOf.1 hdeletion)

end CleanedUp

/-- **Cleanup removes what the run has made**: every container, also the one that is made for the
caches, and the network last; a container that still runs is stopped first. What the engine replies
does not matter, as long as it gives no handle twice, nor does the order in which things happen or
the moment at which the run is interrupted. -/
theorem takenDown_of_cleans {project : Project} {task : String} {host : Host} {result : TaskResult}
    {plan : TeardownPlan} (hresolve : Graph.resolve project task = .ok m.graph)
    (hreach : Reachable (.forTask project host m) m s) (hends : Ends m s result)
    (hplan : m.cleanup s.log result = .run plan)
    (hcleans : Cleans (.forTask project host m) plan.groups s u)
    (hdistinct : ((u.record.filterMap Deed.made?).map (·.2)).Nodup) : TakenDown u.record := by
  obtain rfl := Machine.plan_eq hplan
  exact CleanedUp.takenDown
    ⟨rfl, Graph.wellFormed_of_resolve hresolve, hreach, hends.1, hcleans⟩ hdistinct

end Scene

/-- The container that was made. -/
def Success.made? : Success → Option (Option String × Handle)
  | ⟨.createContainer request, handle⟩ => some (request.knownAs, handle)
  | _ => none

theorem filterMap_made? (record : List Deed) :
    record.filterMap Deed.made? = (record.filterMap Deed.success?).filterMap Success.made? := by
  rw [List.filterMap_filterMap]
  refine List.filterMap_congr ?_
  intro d _
  cases d with
  | answered call reply => cases call <;> cases reply <;> rfl
  | posted | asked | changed => rfl

namespace Workshop

/-- What is made when nothing is refused. The first container is there for the tools only. -/
def made : List (Option String × Handle) :=
  [(none, ⟨"2", "workshop-cache-init-1"⟩), (some "lamp", ⟨"8", "workshop-lamp-1"⟩),
   (some "bench", ⟨"11", "workshop-bench-1"⟩)]

theorem course_ends : ∃ r successes, course (fun _ => false) = .ended r successes ∧
    successes.filterMap Success.made? = made := by
  have hends : (course fun _ => false).endsWith
      (fun _ successes => successes.filterMap Success.made? = made) = true := by
    decide +kernel
  obtain ⟨r, successes, hcourse, hmade⟩ := Course.exists_ended hends
  exact ⟨r, successes, hcourse, of_decide_eq_true hmade⟩

/-- Nothing of the workshop is left. -/
theorem everything_taken_down :
    ∃ record : List Deed, record.filterMap Deed.made? = made ∧ Scene.TakenDown record := by
  obtain ⟨r, successes, hcourse, hsuccesses⟩ := course_ends
  obtain ⟨s, u, result, manual, hreach, hends, hconcludes, -, hrecord⟩ :=
    Scene.exists_scenes_of_runTask (Obliging.answers _) (Obliging.remembers _) rfl hcourse
  have hmade : u.record.filterMap Deed.made? = made := by
    rw [filterMap_made?, hrecord]
    exact hsuccesses
  refine ⟨u.record, hmade, ?_⟩
  cases hconcludes with
  | kept decision =>
    cases result <;> simp [Machine.cleanup, Machine.policy, machine] at decision
  | cleaned decision cleanup =>
    exact Scene.takenDown_of_cleans resolve_project hreach hends decision cleanup
      (by rw [hmade]; decide)

end Workshop

end Stevedore
