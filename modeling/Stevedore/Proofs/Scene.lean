import Stevedore.Proofs.Conduct
import Stevedore.Proofs.Lawful

/-!
A run with everything that its steps do.

A `Moment` knows the events of a run. A `Scene` knows every call and every reply as well: each step
that has been announced is in the hands of somebody who carries out its program, deed by deed, and
the record has the deeds of all hands in the order in which they came. What the engine replies and
what becomes of the files is left open, and so is whose turn it is.

Three things tie scenes to what is known already. What was recorded since an earlier scene is made
up of remarks of the run itself and of the histories of the new hands (`Since`), so that what holds
of each step by itself adds up. The events of a scene are those of a reachable moment
(`Reachable.mirrors`). And cleanup carries out exactly the steps of its plan (`Cleans.steps`).
-/

namespace Stevedore

open Relation

/-- A step that is being carried out. -/
structure Hand where
  step : Step
  /-- What was done for it so far. -/
  history : List Deed
  errand : Errand Unit

namespace Hand

/-- A step that nothing was done for yet. -/
def begin (w : Worker) (step : Step) : Hand := ⟨step, [], .free (w.perform step)⟩

/-- Whether the step has come to its end. -/
def isDone (hand : Hand) : Bool := hand.errand.isDone

/-- Whether what was done is what the worker does for this step. -/
def Faithful (w : Worker) (hand : Hand) : Prop :=
  (Errand.free (w.perform hand.step)).Goes hand.history hand.errand

variable {w : Worker} {hand : Hand}

theorem faithful_begin (w : Worker) (step : Step) : (begin w step).Faithful w := .refl _

theorem Faithful.through (h : hand.Faithful w) (hd : hand.isDone = true) :
    (w.perform hand.step).Through hand.history () := by
  obtain ⟨_, hdone⟩ := Errand.eq_free_done hd
  unfold Faithful at h
  rw [hdone] at h
  exact h

/-- Until its end a step tells how far it has come, and then how it ended. -/
theorem Faithful.tells (hg : w.graph.WellFormed) (h : hand.Faithful w)
    (hd : hand.isDone = false) : hand.errand.Tells hand.step := by
  refine (Errand.Goes.tells h (Worker.tells_perform hg hand.step)).resolve_right ?_
  intro hdone
  unfold isDone at hd
  rw [hdone] at hd
  simp [Errand.isDone] at hd

end Hand

/-- Where a run stands, with everything that was done. -/
structure Scene where
  record : List Deed := []
  /-- The steps of the current batch that have not been announced yet. -/
  waiting : List Step := []
  /-- The steps that have been announced, in this batch or earlier. -/
  hands : List Hand := []
  /-- Whether the run has been interrupted. -/
  cancelled : Bool := false
  /-- Whether the interruption has been noted in the events. -/
  noted : Bool := false
  /-- Whether the loop has looked for an interruption and is about to decide. -/
  deciding : Bool := false

/-- Whether the run itself posts such events, and not one of its steps. -/
def Event.IsRemark : Event → Prop
  | stepStarting _ | executionFailed _ | interrupted => True
  | _ => False

/-- A remark tells of nothing that has been reached. -/
theorem Event.IsRemark.milestone? {e : Event} (h : e.IsRemark) : e.milestone? = none := by
  cases e <;> first | rfl | exact h.elim

namespace Scene

/-- The events so far. -/
def log (s : Scene) : List Event := eventsOf s.record

/-- The steps that have been announced and have not ended. -/
def underWay (s : Scene) : List Step := (s.hands.filter (!·.isDone)).map Hand.step

/-- Whether no step waits or is under way. -/
def IsIdle (s : Scene) : Prop := s.waiting = [] ∧ ∀ hand ∈ s.hands, hand.isDone = true

/-- The scene after an event that no step has posted. -/
def remark (s : Scene) (e : Event) : Scene := { s with record := s.record ++ [.posted e] }

/-- The scene at which a batch begins. -/
def begin (s : Scene) (steps : List Step) : Scene := { s with waiting := steps, deciding := false }

/-- What happens inside a batch. -/
inductive Work (w : Worker) : Scene → Scene → Prop
  | announce {s : Scene} {step : Step} {rest : List Step} (next : s.waiting = step :: rest) :
      Work w s
        { s.remark (.stepStarting step) with waiting := rest, hands := s.hands ++ [.begin w step] }
  | act {s : Scene} {before after : List Hand} {hand : Hand} {d : Deed} {errand : Errand Unit}
      (who : s.hands = before ++ hand :: after) (does : hand.errand.Does d errand) :
      Work w s
        { s with
          record := s.record ++ [d]
          hands := before ++ ⟨hand.step, hand.history ++ [d], errand⟩ :: after }

/-- What happens in the run stage of a task. -/
inductive Move (w : Worker) (m : Machine) : Scene → Scene → Prop
  | work {s u : Scene} (inside : Work w s u) : Move w m s u
  | cancel {s : Scene} : Move w m s { s with cancelled := true }
  /-- An interruption is noted while the batch is waited for. -/
  | notice {s : Scene} (all : s.waiting = []) (waits : s.deciding = false)
      (now : s.cancelled = true) (first : s.noted = false) :
      Move w m s { s.remark .interrupted with noted := true }
  /-- The loop finds an interruption that has not been noted. -/
  | check {s : Scene} (idle : s.IsIdle) (top : s.deciding = false)
      (now : s.cancelled = true) (first : s.noted = false) :
      Move w m s { s.remark .interrupted with noted := true, deciding := true }
  /-- The loop finds nothing to note. -/
  | pass {s : Scene} (idle : s.IsIdle) (top : s.deciding = false)
      (nothing : s.cancelled = false ∨ s.noted = true) : Move w m s { s with deciding := true }
  | dispatch {s : Scene} {steps : List Step} (idle : s.IsIdle) (decides : s.deciding = true)
      (decision : m.next s.log = .dispatch steps) : Move w m s (s.begin steps)
  | stall {s : Scene} (idle : s.IsIdle) (decides : s.deciding = true)
      (decision : m.next s.log = .stalled) :
      Move w m s { s.remark Moment.stallEvent with deciding := false }

/-- The scenes that the run stage of some run comes to. -/
def Reachable (w : Worker) (m : Machine) (s : Scene) : Prop := ReflTransGen (Move w m) {} s

/-- Whether the run stage ends here, with a result. -/
def Ends (m : Machine) (s : Scene) (result : TaskResult) : Prop :=
  s.IsIdle ∧ s.deciding = true ∧ m.next s.log = .finished result

/-- Whether the groups of a plan are carried out on the way from one scene to the other. Each group
begins when every step of the one before has ended. -/
inductive Cleans (w : Worker) : List (List Step) → Scene → Scene → Prop
  | done (s : Scene) : Cleans w [] s s
  | group {s v u : Scene} {steps : List Step} {groups : List (List Step)}
      (first : ReflTransGen (Work w) (s.begin steps) v) (idle : v.IsIdle)
      (rest : Cleans w groups v u) : Cleans w (steps :: groups) s u

/-- How a run concludes whose run stage has ended with a result, and what the user is told then. -/
inductive Concludes (w : Worker) (m : Machine) (result : TaskResult) :
    ManualCleanup → Scene → Scene → Prop
  | kept {s : Scene} {manual : ManualCleanup} (decision : m.cleanup s.log result = .skip manual) :
      Concludes w m result manual s s
  | cleaned {s u : Scene} {plan : TeardownPlan} (decision : m.cleanup s.log result = .run plan)
      (cleanup : Cleans w plan.groups s u) : Concludes w m result (.afterCleanup u.log) s u

variable {w : Worker} {m : Machine} {base s v u : Scene}

@[simp] theorem log_remark (s : Scene) (e : Event) : (s.remark e).log = s.log ++ [e] := by
  simp [log, remark, eventsOf, Deed.event?]

/-- Whoever is in the middle of the hands is under way until their step has ended. -/
theorem underWay_split {before after : List Hand} {hand : Hand}
    (h : s.hands = before ++ hand :: after) :
    s.underWay = (before.filter (!·.isDone)).map Hand.step ++
      ((if hand.isDone then [] else [hand.step]) ++
        (after.filter (!·.isDone)).map Hand.step) := by
  unfold underWay
  cases hd : hand.isDone <;> simp [h, hd]

theorem underWay_eq_nil (h : ∀ hand ∈ s.hands, hand.isDone = true) : s.underWay = [] := by
  have hnone : s.hands.filter (!·.isDone) = [] := by
    refine List.filter_eq_nil_iff.2 ?_
    intro hand hhand
    simp [h hand hhand]
  rw [underWay, hnone]
  rfl

/-! ## What has been recorded since -/

/-- How a scene follows an earlier one: with remarks of the run itself and with new hands. -/
structure Follows (w : Worker) (base : Scene) (remarks : List Event) (hands : List Hand)
    (record : List Deed) (s : Scene) : Prop where
  hands_eq : s.hands = base.hands ++ hands
  record_eq : s.record = base.record ++ record
  faithful : ∀ hand ∈ hands, hand.Faithful w
  /-- Everybody keeps the order of their own deeds. -/
  inside : ∀ hand ∈ hands, hand.history.Sublist record
  /-- There is nothing on the record but remarks and what was done by somebody. -/
  shared : record.Perm (remarks.map .posted ++ hands.flatMap Hand.history)
  remarked : ∀ e ∈ remarks, e.IsRemark
  announced : ∀ hand ∈ hands, .stepStarting hand.step ∈ remarks

theorem Follows.refl (w : Worker) (s : Scene) : Follows w s [] [] [] s where
  hands_eq := by simp
  record_eq := by simp
  faithful := by simp
  inside := by simp
  shared := by simp
  remarked := by simp
  announced := by simp

/-- Whatever is on record is a remark or was done by somebody. -/
theorem Follows.deed_cases {remarks : List Event} {hands : List Hand} {record : List Deed}
    (h : Follows w base remarks hands record s) {d : Deed} (hd : d ∈ record) :
    (∃ e, d = .posted e ∧ e.IsRemark) ∨ ∃ hand ∈ hands, d ∈ hand.history := by
  rcases List.mem_append.1 (h.shared.mem_iff.1 hd) with hd | hd
  · obtain ⟨e, he, rfl⟩ := List.mem_map.1 hd
    exact .inl ⟨e, rfl, h.remarked e he⟩
  · exact .inr (List.mem_flatMap.1 hd)

/-- Whether the scene comes after another in which everybody was done. -/
def Since (w : Worker) (base s : Scene) : Prop :=
  ∃ remarks hands record, Follows w base remarks hands record s

theorem Since.refl (w : Worker) (s : Scene) : Since w s s := ⟨[], [], [], .refl w s⟩

/-- The run itself may remark on something. -/
theorem Since.remark {e : Event} (h : Since w base s) (he : e.IsRemark)
    (hhands : u.hands = s.hands) (hrecord : u.record = s.record ++ [.posted e]) :
    Since w base u := by
  obtain ⟨remarks, hands, record, h⟩ := h
  refine ⟨remarks ++ [e], hands, record ++ [.posted e], hhands.trans h.hands_eq, ?_, h.faithful,
    ?_, ?_, ?_, ?_⟩
  · rw [hrecord, h.record_eq, List.append_assoc]
  · intro hand hhand
    exact (h.inside hand hhand).trans (List.sublist_append_left _ _)
  · have hshared := h.shared.append_right [Deed.posted e]
    refine hshared.trans ?_
    rw [List.map_append, List.append_assoc, List.append_assoc]
    exact .append_left _ List.perm_append_comm
  · exact List.forall_mem_append.2 ⟨h.remarked, by simpa using he⟩
  · intro hand hhand
    exact List.mem_append_left _ (h.announced hand hhand)

theorem Since.announce {step : Step} (h : Since w base s)
    (hhands : u.hands = s.hands ++ [.begin w step])
    (hrecord : u.record = s.record ++ [.posted (.stepStarting step)]) : Since w base u := by
  obtain ⟨remarks, hands, record, h⟩ := h
  refine ⟨remarks ++ [.stepStarting step], hands ++ [.begin w step],
    record ++ [.posted (.stepStarting step)], ?_, ?_, ?_, ?_, ?_, ?_, ?_⟩
  · rw [hhands, h.hands_eq, List.append_assoc]
  · rw [hrecord, h.record_eq, List.append_assoc]
  · refine List.forall_mem_append.2 ⟨h.faithful, ?_⟩
    simpa using Hand.faithful_begin w step
  · refine List.forall_mem_append.2 ⟨?_, by simp [Hand.begin]⟩
    intro hand hhand
    exact (h.inside hand hhand).trans (List.sublist_append_left _ _)
  · have hnew : (hands ++ [Hand.begin w step]).flatMap Hand.history =
        hands.flatMap Hand.history := by
      simp [Hand.begin]
    refine (h.shared.append_right [Deed.posted (.stepStarting step)]).trans ?_
    rw [hnew, List.map_append, List.append_assoc, List.append_assoc]
    exact .append_left _ List.perm_append_comm
  · exact List.forall_mem_append.2 ⟨h.remarked, by simp [Event.IsRemark]⟩
  · refine List.forall_mem_append.2 ⟨?_, by simp [Hand.begin]⟩
    intro hand hhand
    exact List.mem_append_left _ (h.announced hand hhand)

/-- Who acts is not done, so it is one of the new hands. -/
theorem Follows.exists_fore {remarks : List Event} {hands before after : List Hand}
    {record : List Deed} {hand : Hand} (h : Follows w base remarks hands record s)
    (hb : ∀ hand ∈ base.hands, hand.isDone = true) (who : s.hands = before ++ hand :: after)
    (hnot : hand.isDone = false) :
    ∃ fore, before = base.hands ++ fore ∧ hands = fore ++ hand :: after := by
  rw [h.hands_eq] at who
  obtain ⟨fore, hbefore, hhands⟩ | ⟨rest, hbase, hrest⟩ := List.append_eq_append_iff.1 who
  · exact ⟨fore, hbefore, hhands⟩
  · cases rest with
    | nil => exact ⟨[], by simpa using hbase.symm, by simpa using hrest.symm⟩
    | cons other rest =>
      obtain ⟨rfl, -⟩ := List.cons.inj hrest
      have hdone := hb hand (by rw [hbase]; simp)
      rw [hnot] at hdone
      simp at hdone

/-- What holds of all still does when one of them has changed and it holds of that one. -/
theorem forall_mem_replace {fore after : List Hand} {hand hand' : Hand} {p p' : Hand → Prop}
    (h : ∀ other ∈ fore ++ hand :: after, p other) (hp : ∀ other, p other → p' other)
    (hhand : p hand → p' hand') : ∀ other ∈ fore ++ hand' :: after, p' other := by
  obtain ⟨hfore, hrest⟩ := List.forall_mem_append.1 h
  obtain ⟨hfirst, hafter⟩ := List.forall_mem_cons.1 hrest
  refine List.forall_mem_append.2 ⟨fun other ho => hp other (hfore other ho), ?_⟩
  exact List.forall_mem_cons.2 ⟨hhand hfirst, fun other ho => hp other (hafter other ho)⟩

theorem Since.work (hb : ∀ hand ∈ base.hands, hand.isDone = true) (h : Since w base s)
    (hw : Work w s u) : Since w base u := by
  cases hw with
  | announce => exact h.announce rfl rfl
  | @act before after hand d errand who does =>
    obtain ⟨remarks, hands, record, h⟩ := h
    obtain ⟨fore, rfl, rfl⟩ := h.exists_fore hb who does.not_isDone
    have hlonger : ∀ other : Hand, other.history.Sublist record →
        other.history.Sublist (record ++ [d]) :=
      fun other ho => ho.trans (List.sublist_append_left _ _)
    refine ⟨remarks, fore ++ ⟨hand.step, hand.history ++ [d], errand⟩ :: after, record ++ [d],
      by simp, ?_, ?_, ?_, ?_, h.remarked, ?_⟩
    · rw [h.record_eq, List.append_assoc]
    · exact forall_mem_replace h.faithful (fun _ => id) fun hgoes => hgoes.concat does
    · exact forall_mem_replace h.inside hlonger fun hinside => hinside.append (.refl _)
    · refine (h.shared.append_right [d]).trans ?_
      simp only [List.flatMap_append, List.flatMap_cons, List.append_assoc]
      refine .append_left _ (.append_left _ (.append_left _ ?_))
      exact List.perm_append_comm
    · exact forall_mem_replace h.announced (fun _ => id) id

theorem Since.works (hb : ∀ hand ∈ base.hands, hand.isDone = true) (h : Since w base s)
    (hw : ReflTransGen (Work w) s u) : Since w base u := by
  induction hw with
  | refl => exact h
  | tail _ hlast ih => exact ih.work hb hlast

/-- Where a batch begins nothing else changes. -/
theorem Since.begin (h : Since w base s) (steps : List Step) : Since w base (s.begin steps) := by
  obtain ⟨remarks, hands, record, h⟩ := h
  exact ⟨remarks, hands, record, h.hands_eq, h.record_eq, h.faithful, h.inside, h.shared,
    h.remarked, h.announced⟩

theorem Since.move (h : Since w {} s) (hm : Move w m s u) : Since w {} u := by
  cases hm with
  | work inside => exact h.work (by simp) inside
  | dispatch => exact h.begin _
  | cancel | pass =>
    obtain ⟨remarks, hands, record, h⟩ := h
    exact ⟨remarks, hands, record, h.hands_eq, h.record_eq, h.faithful, h.inside, h.shared,
      h.remarked, h.announced⟩
  | notice | check => exact h.remark (e := .interrupted) trivial rfl rfl
  | stall => exact h.remark (e := Moment.stallEvent) trivial rfl rfl

/-- **The record of a run stage is made up of remarks and of what its steps did.** -/
theorem Reachable.since (h : Reachable w m s) : Since w {} s := by
  induction h with
  | refl => exact .refl w {}
  | tail _ hm ih => exact ih.move hm

/-! ## Moments -/

/-- Whether the moment is the scene as far as its events go. -/
structure Mirrors (t : Moment) (s : Scene) : Prop where
  log : t.log = s.log
  waiting : t.waiting = s.waiting
  underWay : t.underWay.Perm s.underWay
  cancelled : t.cancelled = s.cancelled
  noted : t.noted = s.noted
  deciding : t.deciding = s.deciding

variable {t : Moment}

theorem Mirrors.isIdle (h : Mirrors t s) (hi : s.IsIdle) : t.IsIdle := by
  refine ⟨h.waiting.trans hi.1, ?_⟩
  have hperm := h.underWay
  rw [underWay_eq_nil hi.2] at hperm
  exact hperm.eq_nil

/-- A deed of a scene is an event of the moment, or nothing that the moment knows of. -/
theorem Mirrors.work (hg : w.graph.WellFormed) (hf : ∀ hand ∈ s.hands, hand.Faithful w)
    (h : Mirrors t s) (hw : Work w s u) : ∃ t', ReflGen Moment.Work t t' ∧ Mirrors t' u := by
  have hposted : ∀ {e} {u : Scene}, u.record = s.record ++ [.posted e] → t.log ++ [e] = u.log := by
    intro e u hrecord
    rw [Scene.log, hrecord, h.log]
    exact (s.log_remark e).symm
  cases hw with
  | @announce step rest next =>
    refine ⟨_, .single (.announce (h.waiting.trans next)), hposted rfl, rfl, ?_, h.cancelled,
      h.noted, h.deciding⟩
    have hnew : (Hand.begin w step).isDone = false :=
      Errand.Tells.not_isDone (t := .free _) (Worker.tells_perform hg step)
    refine (h.underWay.append_right [step]).trans (.of_eq ?_)
    rw [Scene.underWay, Scene.underWay, List.filter_append, List.filter_singleton, hnew]
    simp [Hand.begin]
  | @act before after hand d errand who does =>
    have hnot : hand.isDone = false := does.not_isDone
    have hunder := underWay_split who
    rw [hnot] at hunder
    have hrunning : hand.step ∈ t.underWay := h.underWay.mem_iff.2 (by rw [hunder]; simp)
    have htells := (hf hand (by rw [who]; simp)).tells hg hnot
    rcases does.tells htells with ⟨hstill, hown⟩ | ⟨rfl, e, rfl, hown⟩
    · have hsame : ∀ u : Scene, u.hands = before ++ ⟨hand.step, hand.history ++ [d], errand⟩ ::
          after → t.underWay.Perm u.underWay := by
        intro u hu
        rw [underWay_split hu, Hand.isDone, hstill.not_isDone]
        exact h.underWay.trans (.of_eq hunder)
      cases d with
      | posted e =>
        exact ⟨_, .single (.report hrunning (hown e rfl)), hposted rfl, h.waiting, hsame _ rfl,
          h.cancelled, h.noted, h.deciding⟩
      | asked | answered | changed =>
        refine ⟨t, .refl, ?_, h.waiting, hsame _ rfl, h.cancelled, h.noted, h.deciding⟩
        rw [h.log]
        simp [Scene.log, eventsOf, Deed.event?]
    · have hover : ∀ u : Scene, u.hands = before ++
          ⟨hand.step, hand.history ++ [.posted e], .free (.done ())⟩ :: after →
          (t.underWay.erase hand.step).Perm u.underWay := by
        intro u hu
        rw [underWay_split hu]
        have herase := (h.underWay.trans (.of_eq hunder)).erase hand.step
        refine herase.trans ((List.perm_middle.erase hand.step).trans (.of_eq ?_))
        simp [Hand.isDone, Errand.isDone]
      exact ⟨_, .single (.finish hrunning hown), hposted rfl, h.waiting, hover _ rfl, h.cancelled,
        h.noted, h.deciding⟩

theorem Mirrors.move (hw : w.graph = m.graph) (hg : m.graph.WellFormed)
    (hf : ∀ hand ∈ s.hands, hand.Faithful w) (h : Mirrors t s) (hm : Move w m s u) :
    ∃ t', ReflGen (Moment.Move m) t t' ∧ Mirrors t' u := by
  have hremark : ∀ e, t.log ++ [e] = (s.remark e).log := fun e =>
    (congrArg (· ++ [e]) h.log).trans (s.log_remark e).symm
  cases hm with
  | work inside =>
    obtain ⟨t', hmoves, h'⟩ := h.work (hw ▸ hg) hf inside
    exact ⟨t', hmoves.mono fun _ _ => .work, h'⟩
  | cancel =>
    exact ⟨_, .single .cancel, h.log, h.waiting, h.underWay, rfl, h.noted, h.deciding⟩
  | notice all waits now first =>
    exact ⟨_, .single (.notice (h.waiting.trans all) (h.deciding.trans waits)
      (h.cancelled.trans now) (h.noted.trans first)), hremark _, h.waiting, h.underWay,
      h.cancelled, rfl, h.deciding⟩
  | check idle top now first =>
    exact ⟨_, .single (.check (h.isIdle idle) (h.deciding.trans top) (h.cancelled.trans now)
      (h.noted.trans first)), hremark _, h.waiting, h.underWay, h.cancelled, rfl, rfl⟩
  | pass idle top nothing =>
    exact ⟨_, .single (.pass (h.isIdle idle) (h.deciding.trans top)
      (by rwa [h.cancelled, h.noted])), h.log, h.waiting, h.underWay, h.cancelled, h.noted, rfl⟩
  | dispatch idle decides decision =>
    exact ⟨_, .single (.dispatch (h.isIdle idle) (h.deciding.trans decides) (h.log ▸ decision)),
      h.log, rfl, h.underWay, h.cancelled, h.noted, rfl⟩
  | stall idle decides decision =>
    exact ⟨_, .single (.stall (h.isIdle idle) (h.deciding.trans decides) (h.log ▸ decision)),
      hremark _, h.waiting, h.underWay, h.cancelled, h.noted, rfl⟩

/-- **The events of a scene are those of a reachable moment.** -/
theorem Reachable.mirrors (hw : w.graph = m.graph) (hg : m.graph.WellFormed)
    (h : Reachable w m s) : ∃ t, Moment.Reachable m t ∧ Mirrors t s := by
  induction h with
  | refl => exact ⟨{}, .refl, rfl, rfl, .refl _, rfl, rfl, rfl⟩
  | @tail s u hs hm ih =>
    obtain ⟨t, ht, hmirrors⟩ := ih
    obtain ⟨remarks, hands, record, hfollows⟩ := Reachable.since hs
    have hf : ∀ hand ∈ s.hands, hand.Faithful w := by
      rw [hfollows.hands_eq]
      simpa using hfollows.faithful
    obtain ⟨t', hmoves, h'⟩ := hmirrors.move hw hg hf hm
    exact ⟨t', ht.trans hmoves.to_reflTransGen, h'⟩

/-! ## Cleanup -/

theorem Work.steps (h : Work w s u) :
    u.hands.map Hand.step ++ u.waiting = s.hands.map Hand.step ++ s.waiting := by
  cases h with
  | announce next => simp [next, Hand.begin]
  | act who => simp [who]

theorem steps_of_works (h : ReflTransGen (Work w) s u) :
    u.hands.map Hand.step ++ u.waiting = s.hands.map Hand.step ++ s.waiting := by
  induction h with
  | refl => rfl
  | tail _ hlast ih => exact hlast.steps.trans ih

namespace Cleans

variable {groups groups' : List (List Step)}

/-- Cleanup carries out the steps of its plan, group by group. -/
theorem steps (h : Cleans w groups s u) :
    u.hands.map Hand.step = s.hands.map Hand.step ++ groups.flatten := by
  induction h with
  | done => simp
  | group first idle _ ih =>
    have hfirst := steps_of_works first
    rw [idle.1, List.append_nil] at hfirst
    rw [ih, hfirst, List.flatten_cons, ← List.append_assoc]
    rfl

theorem isDone (h : Cleans w groups s u) (hs : ∀ hand ∈ s.hands, hand.isDone = true) :
    ∀ hand ∈ u.hands, hand.isDone = true := by
  induction h with
  | done => exact hs
  | group _ idle _ ih => exact ih idle.2

theorem since (h : Cleans w groups s u) (hb : ∀ hand ∈ base.hands, hand.isDone = true)
    (hs : Since w base s) : Since w base u := by
  induction h with
  | done => exact hs
  | group first _ _ ih => exact ih ((hs.begin _).works hb first)

/-- Between two groups everybody is done. -/
theorem split (h : Cleans w (groups ++ groups') s u) :
    ∃ v, Cleans w groups s v ∧ Cleans w groups' v u := by
  induction groups generalizing s with
  | nil => exact ⟨s, .done s, h⟩
  | cons steps groups ih =>
    cases h with
    | group first idle rest =>
      obtain ⟨v, hv, hu⟩ := ih rest
      exact ⟨v, .group first idle hv, hu⟩

end Cleans

end Scene

end Stevedore
