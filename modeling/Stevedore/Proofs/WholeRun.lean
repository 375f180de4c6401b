import Stevedore.Proofs.RunStage

/-!
A whole run with all its freedom, from its first event to its report.

A `Moment` is where the run stage stands. A `Passage` is where the run as a whole stands: in the
run stage, or in the cleanup after it, with the groups of the plan that are still to come. Inside a
group of the cleanup the same happens as inside a batch of the run stage. But nobody plans anew,
and an interruption is not noted any more.

Cleanup does what its plan says and nothing else. A `Tally` keeps account of it: each step of the
plan has ended in one of the ways in which a step can end, or is under way, or is yet to come, and
all events since the plan was made are announcements and ends. It is kept by every move
(`Tally.work`), so it is there in every passage of every run (`Reachable.known`).

`Execution.run` with any orderly steps goes through reachable passages only
(`exists_passage_of_run`).
-/

namespace Stevedore

open Relation

variable {m : Machine} {step : Step} {events : List Event} {result : TaskResult}
  {plan : TeardownPlan}

/-! ## Plans -/

/-- A plan for taking things down is made of steps that do. -/
theorem Graph.isTeardown_of_mem_teardownPlan {g : Graph} {summary : Summary}
    (h : step ∈ (g.teardownPlan summary).groups.flatten) : step.isTeardown = true := by
  obtain ⟨group, hgroup, hstep⟩ := List.mem_flatten.1 h
  have hgroup := List.mem_of_mem_filter hgroup
  simp only [List.mem_append, List.mem_flatMap, List.mem_cons, List.not_mem_nil, or_false]
    at hgroup
  rcases hgroup with ⟨layer, -, hlayer⟩ | rfl | rfl
  · simp only [layerGroups, List.mem_cons, List.not_mem_nil, or_false] at hlayer
    rcases hlayer with rfl | rfl <;> obtain ⟨_, -, rfl⟩ := List.mem_map.1 hstep <;> rfl
  · rcases List.mem_append.1 hstep with hstep | hstep <;>
      obtain ⟨_, -, rfl⟩ := List.mem_map.1 hstep <;> rfl
  · obtain ⟨_, -, rfl⟩ := List.mem_map.1 hstep
    rfl

/-- What a plan was made from. -/
theorem Machine.plan_eq (h : m.cleanup events result = .run plan) :
    plan = m.graph.teardownPlan (.ofEvents events) := by
  unfold cleanup at h
  dsimp only at h
  split at h
  · split at h <;> simp at h
  · exact (CleanupDecision.run.inj h).symm

theorem Machine.isTeardown_of_mem_plan (h : m.cleanup events result = .run plan)
    (hs : step ∈ plan.steps) : step.isTeardown = true := by
  rw [plan_eq h] at hs
  exact Graph.isTeardown_of_mem_teardownPlan hs

/-- Where a whole run stands. -/
inductive Passage where
  | running (t : Moment)
  /-- After a run stage with this result, with these groups of steps still to come. -/
  | closing (result : TaskResult) (ahead : List (List Step)) (t : Moment)

namespace Passage

/-- Which steps wait and are under way, in whatever stage, and what has been posted so far. -/
def moment : Passage → Moment
  | running t | closing _ _ t => t

/-- What happens in a run. -/
inductive Move (m : Machine) : Passage → Passage → Prop
  | run {t u : Moment} (inside : Moment.Move m t u) : Move m (running t) (running u)
  | close {t : Moment} {result : TaskResult} {plan : TeardownPlan}
      (ends : Moment.Ends m t result) (decision : m.cleanup t.log result = .run plan) :
      Move m (running t) (closing result plan.groups t)
  /-- A group begins when every step of the one before has ended. -/
  | group {result : TaskResult} {steps : List Step} {ahead : List (List Step)} {t : Moment}
      (idle : t.IsIdle) :
      Move m (closing result (steps :: ahead) t) (closing result ahead (t.begin steps))
  | work {result : TaskResult} {ahead : List (List Step)} {t u : Moment}
      (inside : Moment.Work t u) : Move m (closing result ahead t) (closing result ahead u)
  | cancel {result : TaskResult} {ahead : List (List Step)} {t : Moment} :
      Move m (closing result ahead t) (closing result ahead { t with cancelled := true })

/-- The passages that some run of the task comes to. -/
def Reachable (m : Machine) (p : Passage) : Prop := ReflTransGen (Move m) (running {}) p

/-- Whether the run is over here, and what it reports. -/
inductive Concludes (m : Machine) : Passage → TaskReport → Prop
  | kept {t : Moment} {result : TaskResult} {manual : ManualCleanup}
      (ends : Moment.Ends m t result) (decision : m.cleanup t.log result = .skip manual) :
      Concludes m (running t) (Execution.report m result manual t.log)
  | cleaned {t : Moment} {result : TaskResult} (idle : t.IsIdle) :
      Concludes m (closing result [] t) (Execution.report m result (.afterCleanup t.log) t.log)

variable {p q : Passage} {s t u : Moment} {steps : List Step} {ahead : List (List Step)}
  {before posted : List Event} {ended : List (Step × Event)}

/-! ## What cleanup does -/

/-- Whether an event puts an end to a step, be it that the step is broken off. -/
def IsEnd (step : Step) (e : Event) : Prop := step.EndsWith e ∨ e = Execution.crashEvent step

theorem IsEnd.startedStep? {e : Event} (h : IsEnd step e) : e.startedStep? = none := by
  rcases h with h | rfl
  · exact h.startedStep?
  · rfl

/-- How far some steps have been carried out since the events before: these have ended like this,
the others are under way, wait, or are yet to come. -/
structure Tally (steps : List Step) (before posted : List Event) (ended : List (Step × Event))
    (ahead : List (List Step)) (t : Moment) : Prop where
  log_eq : t.log = before ++ posted
  shared : (ended.map Prod.fst ++ (t.underWay ++ (t.waiting ++ ahead.flatten))).Perm steps
  ends : ∀ s ∈ ended, IsEnd s.1 s.2
  /-- Steps are announced and end. Nothing else is posted. -/
  account : posted.Perm
    ((ended.map Prod.fst ++ t.underWay).map .stepStarting ++ ended.map Prod.snd)

theorem tally_start (hi : t.IsIdle) : Tally ahead.flatten t.log [] [] ahead t where
  log_eq := (List.append_nil _).symm
  shared := by simp [hi.1, hi.2]
  ends := by simp
  account := by simp [hi.2]

namespace Tally

theorem group {group : List Step} (h : Tally steps before posted ended (group :: ahead) t)
    (hi : t.IsIdle) : Tally steps before posted ended ahead (t.begin group) where
  log_eq := h.log_eq
  shared := by
    have hshared := h.shared
    rw [hi.1] at hshared
    exact hshared
  ends := h.ends
  account := h.account

theorem announce {rest : List Step} (h : Tally steps before posted ended ahead t)
    (next : t.waiting = step :: rest) :
    Tally steps before (posted ++ [.stepStarting step]) ended ahead
      { t.post (.stepStarting step) with waiting := rest, underWay := t.underWay ++ [step] } where
  log_eq := by rw [Moment.post_log, h.log_eq, List.append_assoc]
  shared := by
    have hshared := h.shared
    rw [next] at hshared
    simpa using hshared
  ends := h.ends
  account := by
    refine (h.account.append_right _).trans ?_
    simp only [List.map_append, List.append_assoc, List.map_cons, List.map_nil]
    exact ((List.perm_append_comm).append_left _).append_left _

/-- A step that is under way may end in any way. -/
theorem close {e : Event} (h : Tally steps before posted ended ahead t)
    (running : step ∈ t.underWay) (he : IsEnd step e) :
    Tally steps before (posted ++ [e]) (ended ++ [(step, e)]) ahead (t.close step e) where
  log_eq := by rw [Moment.close_log, h.log_eq, List.append_assoc]
  shared := by
    have hsplit := List.perm_cons_erase running
    refine .trans ?_ h.shared
    rw [List.map_append, List.append_assoc]
    exact .append_left _ (hsplit.symm.append_right _)
  ends := List.forall_mem_append.2 ⟨h.ends, by simpa using he⟩
  account := by
    have hsplit := (List.perm_cons_erase running).map Event.stepStarting
    refine (h.account.append_right _).trans ?_
    simp only [List.map_append, List.append_assoc, List.map_cons, List.map_nil]
    exact (hsplit.append_right _).append_left _

/-- Steps that take something down are announced and end, and report nothing in between. -/
theorem work (hteardown : ∀ step ∈ steps, step.isTeardown = true)
    (h : Tally steps before posted ended ahead t) (hw : Moment.Work t u) :
    ∃ posted' ended', Tally steps before posted' ended' ahead u := by
  cases hw with
  | announce next => exact ⟨_, ended, h.announce next⟩
  | @report step e running own =>
    have hmem : step ∈ steps :=
      h.shared.mem_iff.1 (List.mem_append_right _ (List.mem_append_left _ running))
    have hnot := own.isTeardown
    rw [hteardown step hmem] at hnot
    simp at hnot
  | finish running own => exact ⟨_, _, h.close running (.inl own)⟩
  | crash running => exact ⟨_, _, h.close running (.inr rfl)⟩

theorem mem_posted (h : Tally steps before posted ended ahead t) {e : Event} : e ∈ posted ↔
    (∃ step ∈ ended.map Prod.fst ++ t.underWay, .stepStarting step = e) ∨
      ∃ step, (step, e) ∈ ended := by
  rw [h.account.mem_iff, List.mem_append, List.mem_map, List.mem_map]
  simp

theorem mem_of_ended (h : Tally steps before posted ended ahead t) {e : Event}
    (hs : (step, e) ∈ ended) : step ∈ steps :=
  h.shared.mem_iff.1 (List.mem_append_left _ (List.mem_map_of_mem hs))

/-- The steps that were announced are those that have ended or are under way. -/
theorem perm_startedIn (h : Tally steps before posted ended ahead t) :
    (startedIn posted).Perm (ended.map Prod.fst ++ t.underWay) := by
  refine (h.account.filterMap Event.startedStep?).trans ?_
  have hends : (ended.map Prod.snd).filterMap Event.startedStep? = [] := by
    refine List.filterMap_eq_nil_iff.2 ?_
    intro e he
    obtain ⟨s, hs, rfl⟩ := List.mem_map.1 he
    exact (h.ends s hs).startedStep?
  rw [List.filterMap_append, hends, List.append_nil, List.filterMap_map]
  exact .of_eq List.filterMap_some

/-- Whatever was announced is one of the steps. -/
theorem mem_of_started (h : Tally steps before posted ended ahead t)
    (hs : step ∈ startedIn posted) : step ∈ steps := by
  refine h.shared.mem_iff.1 ?_
  rw [← List.append_assoc]
  exact List.mem_append_left _ (h.perm_startedIn.mem_iff.1 hs)

/-- In the end every step has ended. -/
theorem perm_ended (h : Tally steps before posted ended [] t) (hi : t.IsIdle) :
    (ended.map Prod.fst).Perm steps := by
  have hshared := h.shared
  rw [hi.1, hi.2] at hshared
  simpa using hshared

end Tally

/-! ## The passages of a run -/

/-- How a passage of the cleanup came about: by a run stage that ended in a moment, and by the plan
that was made then. -/
structure Closing (m : Machine) (s : Moment) (result : TaskResult) (plan : TeardownPlan)
    (posted : List Event) (ended : List (Step × Event)) (ahead : List (List Step))
    (t : Moment) : Prop where
  reachable : Moment.Reachable m s
  ends : Moment.Ends m s result
  decision : m.cleanup s.log result = .run plan
  tally : Tally plan.steps s.log posted ended ahead t

/-- What is known of a passage. -/
inductive Known (m : Machine) : Passage → Prop
  | running {t : Moment} (reachable : Moment.Reachable m t) : Known m (running t)
  | closing {s t : Moment} {result : TaskResult} {plan : TeardownPlan} {posted : List Event}
      {ended : List (Step × Event)} {ahead : List (List Step)}
      (since : Closing m s result plan posted ended ahead t) : Known m (closing result ahead t)

theorem Known.move (h : Known m p) (hm : Move m p q) : Known m q := by
  cases hm with
  | run inside =>
    cases h with
    | running reachable => exact .running (reachable.move inside)
  | close ends decision =>
    cases h with
    | running reachable => exact .closing ⟨reachable, ends, decision, tally_start ends.1⟩
  | group idle =>
    cases h with
    | closing since =>
      exact .closing ⟨since.reachable, since.ends, since.decision, since.tally.group idle⟩
  | work inside =>
    cases h with
    | closing since =>
      obtain ⟨posted, ended, htally⟩ :=
        since.tally.work (fun _ => Machine.isTeardown_of_mem_plan since.decision) inside
      exact .closing ⟨since.reachable, since.ends, since.decision, htally⟩
  | cancel =>
    cases h with
    | closing since =>
      have ⟨hlog, hshared, hends, haccount⟩ := since.tally
      exact .closing ⟨since.reachable, since.ends, since.decision, hlog, hshared, hends, haccount⟩

/-- **Every passage of a run is known**: the run stage is in a reachable moment, and the cleanup
follows one in which the run stage has ended, and carries out the plan that was made there. -/
theorem Reachable.known (h : Reachable m p) : Known m p := by
  induction h with
  | refl => exact .running .start
  | tail _ hm ih => exact ih.move hm

theorem reachable_running (h : Moment.Reachable m t) : Reachable m (running t) :=
  h.lift running fun _ _ => .run

theorem moves_of_works (h : ReflTransGen Moment.Work t u) :
    ReflTransGen (Move m) (closing result ahead t) (closing result ahead u) :=
  h.lift (closing result ahead) fun _ _ => .work

/-! ## The run of a program -/

section Program

variable {σ : Type} {env : Surroundings σ} {start : Beginning σ} {sit sit' : Situation σ}
  {r : TaskReport}

/-- The groups of a plan are carried out one after the other. -/
theorem moves_of_runGroups (m : Machine) (result : TaskResult) (ho : start.Orderly)
    {groups : List (List Step)} (hi : t.IsIdle) (hlog : t.log = sit.log)
    (hrun : Execution.runGroups env start groups sit = .ended () sit') :
    ∃ u, u.IsIdle ∧ u.log = sit'.log ∧
      ReflTransGen (Move m) (closing result groups t) (closing result [] u) := by
  induction groups generalizing sit t with
  | nil =>
    obtain ⟨-, rfl⟩ := Course.ended.inj hrun
    exact ⟨t, hi, hlog, .refl⟩
  | cons group groups ih =>
    unfold Execution.runGroups at hrun
    cases hb : Batch.run env start .cleanup group sit with
    | mk sit₁ b =>
      rw [hb] at hrun
      dsimp only at hrun
      split at hrun
      · simp at hrun
      · next hstuck =>
        obtain ⟨v, hv, hnext, hworks⟩ : ∃ v : Moment, v.IsIdle ∧
            v.log = (env.postAll (b.crashed.map Execution.crashEvent) sit₁).log ∧
            ReflTransGen Moment.Work (t.begin group) v := by
          have hworks : ReflTransGen Moment.Work (t.begin group) _ :=
            Moment.works_of_batch ho hlog hi.2 hb (by simpa using hstuck)
          exact ⟨_, ⟨rfl, rfl⟩, (env.log_postAll _ _).symm, hworks⟩
        obtain ⟨u, hu, hlast, hrest⟩ := ih hv hnext hrun
        exact ⟨u, hu, hlast, .head (.group hi) ((moves_of_works hworks).trans hrest)⟩

theorem concludes_of_cleanupStage {manual : ManualCleanup} (ho : start.Orderly)
    (ht : Moment.Reachable m t) (hends : Moment.Ends m t result) (hlog : t.log = sit.log)
    (hrun : Execution.cleanupStage env start m result sit = .ended manual sit') :
    ∃ p, Reachable m p ∧ Concludes m p (Execution.report m result manual sit'.log) := by
  unfold Execution.cleanupStage at hrun
  rw [← hlog] at hrun
  split at hrun
  · next manual' hdecision =>
    obtain ⟨rfl, rfl⟩ := Course.ended.inj hrun
    rw [← hlog]
    exact ⟨_, reachable_running ht, .kept hends hdecision⟩
  · next plan hdecision =>
    cases hgroups : Execution.runGroups env start plan.groups sit with
    | stuck sit₁ =>
      rw [hgroups] at hrun
      simp [Course.bind] at hrun
    | ended _ sit₁ =>
      rw [hgroups] at hrun
      obtain ⟨rfl, rfl⟩ := Course.ended.inj hrun
      obtain ⟨u, hu, hlast, hmoves⟩ := moves_of_runGroups m result ho hends.1 hlog hgroups
      refine ⟨_, ((reachable_running ht).tail (.close hends hdecision)).trans hmoves, ?_⟩
      rw [← hlast]
      exact .cleaned hu

/-- **A run that ends goes through passages**, and its report is about the last of them. -/
theorem exists_passage_of_run (ho : start.Orderly) {rounds : Nat} {w w' : σ}
    (h : Execution.run env start m rounds w = .ended r w') :
    ∃ p, Reachable m p ∧ Concludes m p r := by
  unfold Execution.run at h
  cases hstage : Execution.runStage env start m rounds false ⟨w, []⟩ with
  | stuck sit =>
    rw [hstage] at h
    simp [Course.bind] at h
  | ended result sit =>
    rw [hstage] at h
    cases hcleanup : Execution.cleanupStage env start m result sit with
    | stuck sit₁ =>
      dsimp only [Course.bind] at h
      rw [hcleanup] at h
      simp at h
    | ended manual sit₁ =>
      dsimp only [Course.bind] at h
      rw [hcleanup] at h
      obtain ⟨rfl, -⟩ := Course.ended.inj h
      obtain ⟨t, ht, hlog, hends⟩ := Moment.reachable_of_runStage ho hstage
      exact concludes_of_cleanupStage ho ht hends hlog hcleanup

end Program

end Passage

end Stevedore
