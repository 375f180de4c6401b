import Stevedore.Proofs.Progress
import Stevedore.Proofs.WholeRun

/-!
How many steps are under way at once.

The limit of the options is put to what is planned in the run stage, and to nothing else. A batch
of the run stage never has more steps than the limit allows, and within a batch the number of steps
that have not ended can only fall, so the run stage keeps the limit whatever happens
(`Reachable.pending_le`). A group of the cleanup is carried out as it stands in the plan. All its
steps can be under way at one moment (`exists_underWay_eq`), so a cleanup keeps the limit exactly if
none of its groups is too large.
-/

namespace Stevedore

open Relation

variable {m : Machine} {n : Nat} {step : Step} {steps : List Step}

theorem Machine.length_limited_le (hlimit : m.options.maxParallelism = some n)
    (steps : List Step) : (m.limited steps).length ≤ max n 1 := by
  rw [limited, hlimit]
  exact List.length_take_le _ _

namespace Moment

variable {t u : Moment}

/-- How many steps of the current batch have not ended. -/
def pending (t : Moment) : Nat := t.waiting.length + t.underWay.length

theorem underWay_le_pending (t : Moment) : t.underWay.length ≤ t.pending := Nat.le_add_left _ _

theorem IsIdle.pending_begin (h : t.IsIdle) (steps : List Step) :
    (t.begin steps).pending = steps.length := by
  simp [pending, begin, h.2]

/-- Inside a batch steps can only come to their ends. -/
theorem Work.pending_le (h : Work t u) : u.pending ≤ t.pending := by
  cases h with
  | announce next =>
    simp only [pending, next, List.length_append, List.length_cons, List.length_nil]
    omega
  | report => exact Nat.le_refl _
  | finish | crash => exact Nat.add_le_add_left (List.length_erase_le ..) _

/-- Every move of the run stage keeps the limit. -/
theorem Move.pending_le (hlimit : m.options.maxParallelism = some n) (h : Move m t u)
    (ht : t.pending ≤ max n 1) : u.pending ≤ max n 1 := by
  cases h with
  | work inside => exact Nat.le_trans inside.pending_le ht
  | cancel | notice | check | pass | stall => exact ht
  | dispatch idle _ decision =>
    obtain ⟨-, rfl⟩ := Machine.next_dispatch decision
    rw [idle.pending_begin]
    exact Machine.length_limited_le hlimit _

/-- The run stage keeps the limit. -/
theorem Reachable.pending_le (hlimit : m.options.maxParallelism = some n) (h : Reachable m t) :
    t.pending ≤ max n 1 := by
  induction h with
  | refl => exact Nat.zero_le _
  | tail _ hm ih => exact hm.pending_le hlimit ih

end Moment

namespace Passage

variable {p q : Passage} {t : Moment} {result : TaskResult} {groups : List (List Step)}

/-- Whether at most so many steps have not ended, and none of the groups to come has more. -/
def Fits (limit : Nat) : Passage → Prop
  | running t => t.pending ≤ limit
  | closing _ ahead t => t.pending ≤ limit ∧ ∀ group ∈ ahead, group.length ≤ limit

theorem fits_closing {limit : Nat} (hi : t.IsIdle)
    (hgroups : ∀ group ∈ groups, group.length ≤ limit) : (closing result groups t).Fits limit := by
  refine ⟨?_, hgroups⟩
  simp [Moment.pending, hi.1, hi.2]

theorem Fits.underWay_le {limit : Nat} (h : p.Fits limit) :
    p.moment.underWay.length ≤ limit := by
  cases p with
  | running t => exact Nat.le_trans t.underWay_le_pending h
  | closing _ _ t => exact Nat.le_trans t.underWay_le_pending h.1

/-- A cleanup goes on as a cleanup, and keeps a limit that fits. -/
theorem Fits.move {limit : Nat} {ahead : List (List Step)}
    (h : (closing result ahead t).Fits limit) (hm : Move m (closing result ahead t) q) :
    q.Fits limit ∧ ∃ ahead' u, q = closing result ahead' u := by
  cases hm with
  | group idle =>
    obtain ⟨hfirst, hrest⟩ := List.forall_mem_cons.1 h.2
    refine ⟨⟨?_, hrest⟩, _, _, rfl⟩
    rwa [idle.pending_begin]
  | work inside => exact ⟨⟨Nat.le_trans inside.pending_le h.1, h.2⟩, _, _, rfl⟩
  | cancel => exact ⟨h, _, _, rfl⟩

theorem Fits.moves {limit : Nat} (h : (closing result groups t).Fits limit)
    (hmoves : ReflTransGen (Move m) (closing result groups t) p) : p.Fits limit := by
  suffices hall : p.Fits limit ∧ ∃ ahead u, p = closing result ahead u from hall.1
  induction hmoves with
  | refl => exact ⟨h, _, _, rfl⟩
  | tail _ hm ih =>
    obtain ⟨hfits, _, _, rfl⟩ := ih
    exact hfits.move hm

/-- Each group of a plan can be under way as a whole. -/
theorem exists_underWay_eq (m : Machine) (result : TaskResult) (hi : t.IsIdle)
    (hgroup : steps ∈ groups) : ∃ ahead u, u.underWay = steps ∧
      ReflTransGen (Move m) (closing result groups t) (closing result ahead u) := by
  induction groups generalizing t with
  | nil => simp at hgroup
  | cons first groups ih =>
    have hbegin : Move m (closing result (first :: groups) t)
        (closing result groups (t.begin first)) := .group hi
    rcases List.mem_cons.1 hgroup with rfl | hlater
    · have hworks := Moment.works_announced (t.begin steps)
      refine ⟨groups, _, ?_, .head hbegin (moves_of_works hworks)⟩
      simp [Moment.begin, hi.2]
    · obtain ⟨v, hworks, hidle⟩ := Moment.exists_idle (t.begin first)
      obtain ⟨ahead, u, hu, hmoves⟩ := ih hidle hlater
      exact ⟨ahead, u, hu, .head hbegin ((moves_of_works hworks).trans hmoves)⟩

/-- **The limit is kept in the run stage, and in a cleanup exactly if its groups are small
enough.** Whatever happens, at most as many steps of the run stage as the limit allows are under way
at once, and at least one always may. In the cleanup after it this is so at every moment of every
course that the cleanup can take if and only if no group of the plan has more steps. -/
theorem underWay_le_limit (hlimit : m.options.maxParallelism = some n) :
    (∀ t, Moment.Reachable m t → t.underWay.length ≤ max n 1) ∧
      ∀ t result plan, Moment.Reachable m t → Moment.Ends m t result →
        m.cleanup t.log result = .run plan →
        ((∀ p, ReflTransGen (Move m) (closing result plan.groups t) p →
            p.moment.underWay.length ≤ max n 1) ↔
          ∀ group ∈ plan.groups, group.length ≤ max n 1) := by
  constructor
  · intro t ht
    exact Nat.le_trans t.underWay_le_pending (ht.pending_le hlimit)
  · intro t result plan _ hends _
    constructor
    · intro hall group hgroup
      obtain ⟨ahead, u, rfl, hmoves⟩ := exists_underWay_eq m result hends.1 hgroup
      exact hall _ hmoves
    · intro hgroups p hmoves
      exact ((fits_closing hends.1 hgroups).moves hmoves).underWay_le

end Passage

/-! A market with two stalls that wait for nobody, and a till that waits for both. One step at a
time is allowed. -/

namespace Market

/-- The project. -/
def project : Project where
  settings := {
    projectName := "market"
    containers := .ofList [
      ("apples", { image := some "stall" }),
      ("pears", { image := some "stall" }),
      ("till", { image := some "stall", dependencies := ["apples", "pears"] })]
    tasks := .ofList [("open", { run := some { container := "till" } })] }
  valid := by decide

/-- What opening the market needs. -/
def graph : Graph where
  projectName := "market"
  taskName := "open"
  run := { container := "till" }
  nodes := Graph.nodesOf project (.ofList [
    ("apples", ∅), ("pears", ∅), ("till", .ofList ["apples", "pears"])])

/-- Opening the market, one step at a time. -/
def machine : Machine := ⟨graph, { task := "open", maxParallelism := some 1 }⟩

theorem resolve_project : Graph.resolve project "open" = .ok machine.graph := by decide +kernel

/-- The steps that stop the two stalls. -/
def stops : List Step :=
  [.stopContainer "apples" ⟨"apples", "apples"⟩, .stopContainer "pears" ⟨"pears", "pears"⟩]

/-- When the market closes, the two stalls are stopped together. -/
theorem exists_plan : ∃ t plan, Moment.Reachable machine t ∧
    Moment.Ends machine t (.succeeded 0) ∧
    machine.cleanup t.log (.succeeded 0) = .run plan ∧ stops ∈ plan.groups := by
  have hends : (Execution.runStage Prompt.surroundings Prompt.start machine
      machine.graph.roundLimit false ⟨(), []⟩).endsWith (fun result s =>
        let plan := machine.graph.teardownPlan (.ofEvents s.log)
        result = .succeeded 0 ∧ machine.cleanup s.log result = .run plan ∧
          stops ∈ plan.groups) = true := by
    decide +kernel
  obtain ⟨result, s, hrun, hseen⟩ := Course.exists_ended hends
  obtain ⟨rfl, hdecision, hstops⟩ := of_decide_eq_true hseen
  obtain ⟨t, ht, hlog, hends⟩ := Moment.reachable_of_runStage Prompt.orderly_start hrun
  exact ⟨t, _, ht, hends, hlog ▸ hdecision, hstops⟩

/-- Until it closes the market keeps to one step at a time, and then it need not. -/
theorem one_step_until_closing : (∀ t, Moment.Reachable machine t → t.underWay.length ≤ 1) ∧
    ∃ t plan, Moment.Reachable machine t ∧ Moment.Ends machine t (.succeeded 0) ∧
      machine.cleanup t.log (.succeeded 0) = .run plan ∧
      ¬ ∀ p, ReflTransGen (Passage.Move machine) (.closing (.succeeded 0) plan.groups t) p →
        p.moment.underWay.length ≤ 1 := by
  obtain ⟨hrunning, hclosing⟩ := Passage.underWay_le_limit (m := machine) (n := 1) rfl
  obtain ⟨t, plan, ht, hends, hdecision, hstops⟩ := exists_plan
  refine ⟨hrunning, t, plan, ht, hends, hdecision, ?_⟩
  intro hall
  have hsmall := (hclosing t _ plan ht hends hdecision).1 hall stops hstops
  simp [stops] at hsmall

/-- Both stalls are being stopped at one moment, although one step at a time is allowed. -/
theorem both_stops_underWay : machine.options.maxParallelism = some 1 ∧
    ∃ p, Passage.Reachable machine p ∧ p.moment.underWay.length = 2 := by
  obtain ⟨t, plan, ht, hends, hdecision, hstops⟩ := exists_plan
  obtain ⟨ahead, u, hu, hmoves⟩ :=
    Passage.exists_underWay_eq machine (.succeeded 0) hends.1 hstops
  have hclose := (Passage.reachable_running ht).tail (.close hends hdecision)
  exact ⟨rfl, _, hclose.trans hmoves, congrArg List.length hu⟩

end Market

end Stevedore
