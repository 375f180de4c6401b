import Stevedore.Proofs.RunStage
import Stevedore.Proofs.Scene
import Stevedore.Work.Run

/-!
A run with the programs of a worker goes through scenes.

`Worker.runTask` carries out a batch in one go: each step runs as far as it can, and those that wait
go on when the run is interrupted. With an engine that answers every call, or keeps it waiting until
then (`Surroundings.Answers`), this is one of the ways through the scenes of a batch. Where the
surroundings remember some of the replies and changes (`Surroundings.Remembers`), such as the calls
that have succeeded, the record of the scenes has the same ones.
-/

namespace Stevedore

open Relation

/-- A call that has succeeded. -/
structure Success where
  call : EngineCall
  answer : call.Answer

/-- The call that has succeeded, if it is one. -/
def Deed.success? : Deed → Option Success
  | answered call (.ok answer) => some ⟨call, answer⟩
  | _ => none

namespace Surroundings

variable {σ : Type}

/-- Whether the engine answers every call, at once or when the run is interrupted. -/
def Answers (env : Surroundings σ) : Prop :=
  ∀ now call world, (∃ reply, (env.ask now call world).1.2 = .reply reply) ∨
    (env.ask now call world).1.2 = .untilCancelled

/-- Whether the surroundings remember the replies and changes of which there is something to recall.
Nothing is recalled of a call that has failed because the run was interrupted. -/
structure Remembers {β : Type} (env : Surroundings σ) (recalled : Deed → Option β)
    (memory : σ → List β) : Prop where
  unposted : ∀ e, recalled (.posted e) = none
  unasked : ∀ call, recalled (.asked call) = none
  cancelled : ∀ call, recalled (.answered call (.error .cancelled)) = none
  replied : ∀ {now call world reply}, (env.ask now call world).1.2 = .reply reply →
    memory (env.ask now call world).2 = memory world ++ (recalled (.answered call reply)).toList
  waits : ∀ {now call world}, (env.ask now call world).1.2 = .untilCancelled →
    memory (env.ask now call world).2 = memory world
  changed : ∀ request world, memory (env.change request world).2 =
    memory world ++ (recalled (.changed request (env.change request world).1)).toList
  idle : ∀ world, memory (env.whenIdle world) = memory world
  observed : ∀ e world, memory (env.observe e world) = memory world

end Surroundings

variable {σ β : Type} {env : Surroundings σ} {recalled : Deed → Option β} {memory : σ → List β}

/-- Whether this was done on the way from one situation to the other, as far as events and the
memory of the surroundings go. -/
structure Situation.Gains (recalled : Deed → Option β) (memory : σ → List β) (s : Situation σ)
    (record : List Deed) (s' : Situation σ) : Prop where
  log : s'.log = s.log ++ eventsOf record
  memory : memory s'.world = memory s.world ++ record.filterMap recalled

theorem eventsOf_call (call : EngineCall) (reply : Reply call) (events : List Event) :
    eventsOf (.asked call :: (events.map .posted ++ [.answered call reply])) = events := by
  simp [eventsOf, List.filterMap_cons, List.filterMap_map, Function.comp_def, Deed.event?]

theorem recall_call (hr : env.Remembers recalled memory) (call : EngineCall) (reply : Reply call)
    (events : List Event) :
    (.asked call :: (events.map .posted ++ [.answered call reply])).filterMap recalled =
      (recalled (.answered call reply)).toList := by
  have hposted : (events.map Deed.posted).filterMap recalled = [] := by
    simp [List.filterMap_map, hr.unposted]
  rw [List.filterMap_cons_none (hr.unasked call), List.filterMap_append, hposted, List.nil_append]
  cases h : recalled (.answered call reply) <;> simp [h]

theorem memory_postAll (hr : env.Remembers recalled memory) (events : List Event)
    (s : Situation σ) :
    memory (env.postAll events s).world = memory s.world := by
  induction events generalizing s with
  | nil => rfl
  | cons e events ih => exact (ih (env.post e s)).trans (hr.observed e s.world)

namespace Situation.Gains

variable {s s' s'' : Situation σ} {record record' : List Deed}

theorem refl (s : Situation σ) : Gains recalled memory s [] s := ⟨by simp [eventsOf], by simp⟩

theorem trans (h : Gains recalled memory s record s') (h' : Gains recalled memory s' record' s'') :
    Gains recalled memory s (record ++ record') s'' where
  log := by rw [h'.log, h.log, eventsOf_append, List.append_assoc]
  memory := by rw [h'.memory, h.memory, List.filterMap_append, List.append_assoc]

theorem post (hr : env.Remembers recalled memory) (e : Event) (s : Situation σ) :
    Gains recalled memory s [.posted e] (env.post e s) where
  log := rfl
  memory := by simp [Surroundings.post, hr.observed, hr.unposted]

theorem postAll (hr : env.Remembers recalled memory) (events : List Event) (s : Situation σ) :
    Gains recalled memory s (events.map .posted) (env.postAll events s) := by
  induction events generalizing s with
  | nil => exact .refl s
  | cons e events ih => exact (Gains.post hr e s).trans (ih (env.post e s))

theorem changeIn (hr : env.Remembers recalled memory) (request : FileChange) (s : Situation σ) :
    Gains recalled memory s [.changed request (env.changeIn request s).1]
      (env.changeIn request s).2 where
  log := by simp [Surroundings.changeIn, eventsOf, Deed.event?]
  memory := by
    rw [List.filterMap_cons, List.filterMap_nil]
    refine (hr.changed request s.world).trans ?_
    cases h : recalled (.changed request (env.change request s.world).1) <;>
      simp [Surroundings.changeIn, h]

/-- A call that is interrupted leaves no trace. -/
theorem of_cancelled (hr : env.Remembers recalled memory) {call : EngineCall}
    (h : Gains recalled memory s (record ++ [.answered call (.error .cancelled)]) s') :
    Gains recalled memory s record s' where
  log := by
    have hnone : eventsOf [.answered call (.error .cancelled)] = [] := rfl
    rw [h.log, eventsOf_append, hnone, List.append_nil]
  memory := by
    rw [h.memory, List.filterMap_append, List.filterMap_cons_none (hr.cancelled call),
      List.filterMap_nil, List.append_nil]

/-- A call is answered, or fails when the run is interrupted. -/
theorem askIn (ha : env.Answers) (hr : env.Remembers recalled memory) {stage : Stage}
    {call : EngineCall}
    {announce : Progress → Option Event} {response : Response call.Answer}
    (h : env.askIn stage call announce s = (response, s')) :
    ∃ (events : List Event) (reply : Reply call), (∀ e ∈ events, ∃ p, announce p = some e) ∧
      Gains recalled memory s (.asked call :: (events.map .posted ++ [.answered call reply])) s' ∧
      (response = .reply reply ∨ response = .untilCancelled ∧ reply = .error .cancelled) := by
  unfold Surroundings.askIn at h
  cases hask : env.ask (env.interrupts stage s.world) call s.world with
  | mk taken world =>
    obtain ⟨progress, response'⟩ := taken
    rw [hask] at h
    obtain ⟨rfl, rfl⟩ := Prod.mk.inj h
    have hannounced : ∀ e ∈ progress.filterMap announce, ∃ p, announce p = some e := by
      intro e he
      obtain ⟨p, -, hp⟩ := List.mem_filterMap.1 he
      exact ⟨p, hp⟩
    have hgains : ∀ reply : Reply call,
        memory world = memory s.world ++ (recalled (.answered call reply)).toList →
        Gains recalled memory s
          (.asked call :: ((progress.filterMap announce).map .posted ++ [.answered call reply]))
          (env.postAll (progress.filterMap announce) ⟨world, s.log⟩) := by
      intro reply hmemory
      refine ⟨?_, ?_⟩
      · rw [env.log_postAll, eventsOf_call]
      · rw [memory_postAll hr, recall_call hr, hmemory]
    have hasked := ha (env.interrupts stage s.world) call s.world
    have hreplied := @hr.replied (env.interrupts stage s.world) call s.world
    have hwaits := @hr.waits (env.interrupts stage s.world) call s.world
    rw [hask] at hasked hreplied hwaits
    obtain ⟨reply, rfl⟩ | rfl := hasked
    · exact ⟨_, reply, hannounced, hgains reply (hreplied rfl), .inl rfl⟩
    · refine ⟨_, .error .cancelled, hannounced, hgains _ ?_, .inr ⟨rfl, rfl⟩⟩
      rw [hwaits rfl, hr.cancelled, Option.toList_none, List.append_nil]

end Situation.Gains

open Situation (Gains)

/-! ## Programs -/

/-- Where a program may pause once this has been done for it: at its end, or at a call that is kept
waiting. -/
inductive PausesAt {α : Type} (env : Surroundings σ) (p : Program α) (history : List Deed) :
    Pause σ → Prop
  | ended {result : α} (through : p.Through history result) :
      PausesAt env p history (.ended .finished)
  | waiting {call : EngineCall} {announce : Progress → Option Event}
      {next : Reply call → Program α}
      (goes : (Errand.free p).Goes history (.pending call announce next)) :
      PausesAt env p history (.waiting (env.finish (next (.error .cancelled))))

theorem PausesAt.after {α : Type} {p q : Program α} {before history : List Deed} {pause : Pause σ}
    (h : PausesAt env q history pause) (first : (Errand.free p).Goes before (.free q)) :
    PausesAt env p (before ++ history) pause := by
  cases h with
  | ended through => exact .ended (first.append through)
  | waiting goes => exact .waiting (first.append goes)

section Programs

variable {α : Type} (ha : env.Answers) (hr : env.Remembers recalled memory)

include ha hr

/-- In a run that has been interrupted a program comes to its end. -/
theorem through_of_finish (p : Program α) (s : Situation σ) :
    ∃ history result, (env.finish p s).2 = .finished ∧ p.Through history result ∧
      Gains recalled memory s history (env.finish p s).1 := by
  induction p generalizing s with
  | done result => exact ⟨[], result, rfl, .refl _, .refl s⟩
  | post e next ih =>
    obtain ⟨history, result, hend, hthrough, hgains⟩ := ih (env.post e s)
    exact ⟨.posted e :: history, result, hend, .head .post hthrough,
      (Gains.post hr e s).trans hgains⟩
  | change request next ih =>
    obtain ⟨history, result, hend, hthrough, hgains⟩ :=
      ih (env.changeIn request s).1 (env.changeIn request s).2
    exact ⟨.changed request _ :: history, result, hend, .head (.change _) hthrough,
      (Gains.changeIn hr request s).trans hgains⟩
  | ask call announce next ih =>
    unfold Surroundings.finish
    cases hask : env.askIn .run call announce s with
    | mk response s₁ =>
      obtain ⟨events, reply, hall, hgains, hreply⟩ := Gains.askIn ha hr hask
      obtain ⟨history, result, hend, hthrough, hgains'⟩ := ih reply s₁
      have hhistory : (Program.ask call announce next).Through
          (.asked call :: (events.map .posted ++ .answered call reply :: history)) result :=
        Program.through_ask.2 ⟨events, reply, history, rfl, hall, hthrough⟩
      have hall := hgains.trans hgains'
      rw [List.cons_append, List.append_assoc] at hall
      rcases hreply with rfl | ⟨rfl, rfl⟩
      · exact ⟨_, result, hend, hhistory, hall⟩
      · exact ⟨_, result, hend, hhistory, hall⟩

/-- A program comes to its end, or to a call that is kept waiting. -/
theorem pausesAt_of_advance (stage : Stage) (p : Program α) {s s' : Situation σ} {pause : Pause σ}
    (h : env.advance stage p s = (s', pause)) (hp : pause ≠ .ended .stuck) :
    ∃ history, Gains recalled memory s history s' ∧ PausesAt env p history pause := by
  induction p generalizing s with
  | done result =>
    obtain ⟨rfl, rfl⟩ := Prod.mk.inj h
    exact ⟨[], .refl _, .ended (.refl (.free (.done result)))⟩
  | post e next ih =>
    obtain ⟨history, hgains, hend⟩ := ih h
    exact ⟨_, (Gains.post hr e s).trans hgains, hend.after (.head .post (.refl _))⟩
  | change request next ih =>
    obtain ⟨history, hgains, hend⟩ := ih _ h
    exact ⟨_, (Gains.changeIn hr request s).trans hgains, hend.after (.head (.change _) (.refl _))⟩
  | ask call announce next ih =>
    unfold Surroundings.advance at h
    cases hask : env.askIn stage call announce s with
    | mk response s₁ =>
      obtain ⟨events, reply, hall, hgains, hreply⟩ := Gains.askIn ha hr hask
      rw [hask] at h
      have hgoes : (Errand.free (.ask call announce next)).Goes (.asked call :: events.map .posted)
          (.pending call announce next) := .head .ask (Errand.goes_progress hall)
      have hreplied : env.advance stage (next reply) s₁ = (s', pause) → ∃ history,
          Gains recalled memory s history s' ∧
            PausesAt env (.ask call announce next) history pause := by
        intro h'
        obtain ⟨history, hgains', hend⟩ := ih reply h'
        exact ⟨_, hgains.trans hgains', hend.after (hgoes.concat (.answer reply))⟩
      rcases hreply with rfl | ⟨rfl, rfl⟩
      · exact hreplied h
      · dsimp only at h
        split at h
        · exact hreplied h
        · split at h
          · obtain ⟨rfl, rfl⟩ := Prod.mk.inj h
            rw [← List.cons_append] at hgains
            exact ⟨_, hgains.of_cancelled hr, .waiting hgoes⟩
          · exact absurd (Prod.mk.inj h).2.symm hp

end Programs

/-! ## Batches -/

/-- Whether these are the hands of steps that have ended, and of those that wait to be interrupted,
in their order. -/
inductive Waits (env : Surroundings σ) : Batch.Waiting σ → List Hand → Prop
  | nil : Waits env [] []
  | ended {waiting : Batch.Waiting σ} {hands : List Hand} {hand : Hand} (done : hand.isDone = true)
      (rest : Waits env waiting hands) : Waits env waiting (hand :: hands)
  | waits {waiting : Batch.Waiting σ} {hands : List Hand} {step : Step} {history : List Deed}
      {call : EngineCall} {announce : Progress → Option Event} {next : Reply call → Program Unit}
      (rest : Waits env waiting hands) :
      Waits env ((step, env.finish (next (.error .cancelled))) :: waiting)
        (⟨step, history, .pending call announce next⟩ :: hands)

theorem Waits.isDone {hands : List Hand} (h : Waits env [] hands) :
    ∀ hand ∈ hands, hand.isDone = true := by
  generalize hnone : ([] : Batch.Waiting σ) = waiting at h
  induction h with
  | nil => simp
  | ended done _ ih => exact List.forall_mem_cons.2 ⟨done, ih hnone⟩
  | waits => simp at hnone

namespace Scene

/-- The scene when this has been done besides, and these are the hands. -/
def grow (s : Scene) (record : List Deed) (hands : List Hand) : Scene :=
  { s with record := s.record ++ record, hands }

theorem grow_self (s : Scene) : s.grow [] s.hands = s := by
  rw [grow, List.append_nil]

@[simp] theorem grow_grow (s : Scene) (record record' : List Deed) (hands hands' : List Hand) :
    (s.grow record hands).grow record' hands' = s.grow (record ++ record') hands' := by
  simp [grow]

variable {w : Worker} {s : Scene} {before after hands : List Hand}

/-- What somebody goes on to do is part of what happens. -/
theorem works_of_goes {t u : Errand Unit} {history : List Deed} (h : t.Goes history u)
    {step : Step} {past : List Deed} (hs : s.hands = before ++ ⟨step, past, t⟩ :: after) :
    ReflTransGen (Work w) s
      (s.grow history (before ++ ⟨step, past ++ history, u⟩ :: after)) := by
  induction h generalizing s past with
  | refl =>
    rw [List.append_nil, ← hs, grow_self]
  | @head t u v d history first _ ih =>
    have hrest := ih (s := s.grow [d] (before ++ ⟨step, past ++ [d], u⟩ :: after)) rfl
    rw [grow_grow, List.append_assoc] at hrest
    exact .head (.act hs first) hrest

/-- The steps of a batch are announced one after the other. -/
theorem works_of_waiting (w : Worker) {steps : List Step} (hs : s.waiting = steps) :
    ReflTransGen (Work w) s
      (Scene.grow { s with waiting := [] } ((steps.map Event.stepStarting).map .posted)
        (s.hands ++ steps.map (Hand.begin w))) := by
  induction steps generalizing s with
  | nil =>
    obtain ⟨record, waiting, hands, cancelled, noted, deciding⟩ := s
    obtain rfl : waiting = [] := hs
    simp only [grow, List.map_nil, List.append_nil]
    exact .refl
  | cons step steps ih =>
    have hrest := ih (s := { s.grow [.posted (.stepStarting step)] (s.hands ++ [.begin w step]) with
      waiting := steps }) rfl
    refine .head (.announce hs) ?_
    simpa [grow, remark] using hrest

variable (ha : env.Answers) (hr : env.Remembers recalled memory) {stage : Stage}
  {sit sit' : Situation σ}
  {b b' : BatchEnd} {waiting : Batch.Waiting σ}

include ha hr

/-- Steps that are begun end or wait. -/
theorem works_of_beginAll {steps : List Step}
    (h : Batch.beginAll (w.start env) stage steps b sit = (sit', b', waiting))
    (hstuck : b'.stuck = false) (hs : s.hands = before ++ steps.map (.begin w)) :
    ∃ record hands, ReflTransGen (Work w) s (s.grow record (before ++ hands)) ∧
      Gains recalled memory sit record sit' ∧ Waits env waiting hands ∧ b' = b := by
  induction steps generalizing b sit sit' b' waiting s before with
  | nil =>
    obtain ⟨rfl, rfl, rfl⟩ : sit = sit' ∧ b = b' ∧ [] = waiting := by
      simpa [Batch.beginAll] using h
    refine ⟨[], [], ?_, .refl sit, .nil, rfl⟩
    rw [List.map_nil] at hs
    rw [← hs, grow_self]
  | cons step steps ih =>
    unfold Batch.beginAll at h
    cases hbegin : w.start env stage step sit with
    | mk sit₁ pause =>
      rw [hbegin] at h
      have hpause : pause ≠ .ended .stuck := by
        rintro rfl
        have hlater :=
          Moment.stuck_of_beginAll (w.start env) stage steps sit₁ (b.note step .stuck) rfl
        dsimp only at h
        rw [h, hstuck] at hlater
        simp at hlater
      obtain ⟨history, hgains, hend⟩ :=
        pausesAt_of_advance ha hr stage (w.perform step) hbegin hpause
      -- Whoever has been begun belongs to those before when the others are begun.
      have hothers : ∀ {u : Errand Unit} {b b' : BatchEnd} {waiting : Batch.Waiting σ},
          (Errand.free (w.perform step)).Goes history u →
          Batch.beginAll (w.start env) stage steps b sit₁ = (sit', b', waiting) →
          b'.stuck = false → ∃ record hands,
            ReflTransGen (Work w) s (s.grow record (before ++ ⟨step, history, u⟩ :: hands)) ∧
              Gains recalled memory sit record sit' ∧ Waits env waiting hands ∧ b' = b := by
        intro u b b' waiting hgoes hb hstuck
        have hnow : (s.grow history (before ++ ⟨step, history, u⟩ :: steps.map (.begin w))).hands =
            (before ++ [⟨step, history, u⟩]) ++ steps.map (.begin w) := List.append_cons ..
        obtain ⟨record, hands, hworks, hgains', hwaits, rfl⟩ := ih hb hstuck hnow
        refine ⟨history ++ record, hands, ?_, hgains.trans hgains', hwaits, rfl⟩
        rw [grow_grow] at hworks
        simpa using (works_of_goes hgoes hs).trans hworks
      cases hend with
      | ended through =>
        obtain ⟨record, hands, hworks, hgains', hwaits, rfl⟩ := hothers through h hstuck
        exact ⟨record, _, hworks, hgains', .ended rfl hwaits, rfl⟩
      | @waiting call announce next goes =>
        cases hrest : Batch.beginAll (w.start env) stage steps b sit₁ with
        | mk sit₂ rest =>
          obtain ⟨b₂, waiting₂⟩ := rest
          dsimp only at h
          rw [hrest] at h
          obtain ⟨rfl, rfl, rfl⟩ : sit₂ = sit' ∧ b₂ = b' ∧
              (step, env.finish (next (.error .cancelled))) :: waiting₂ = waiting := by
            simpa using h
          obtain ⟨record, hands, hworks, hgains', hwaits, rfl⟩ := hothers goes hrest hstuck
          exact ⟨record, _, hworks, hgains', .waits hwaits, rfl⟩

/-- Steps that wait come to their end when the run is interrupted. -/
theorem works_of_resumeAll (hwaits : Waits env waiting hands)
    (h : Batch.resumeAll waiting b sit = (sit', b')) (hs : s.hands = before ++ hands) :
    ∃ record hands', ReflTransGen (Work w) s (s.grow record (before ++ hands')) ∧
      Gains recalled memory sit record sit' ∧ (∀ hand ∈ hands', hand.isDone = true) ∧ b' = b := by
  induction hwaits generalizing b sit s before with
  | nil =>
    obtain ⟨rfl, rfl⟩ : sit = sit' ∧ b = b' := by simpa [Batch.resumeAll] using h
    refine ⟨[], [], ?_, .refl sit, by simp, rfl⟩
    rw [← hs, grow_self]
  | @ended waiting hands hand done _ ih =>
    have hnow : s.hands = (before ++ [hand]) ++ hands := by simp [hs]
    obtain ⟨record, hands', hworks, hgains, hdone, rfl⟩ := ih h hnow
    refine ⟨record, hand :: hands', by simpa using hworks, hgains,
      List.forall_mem_cons.2 ⟨done, hdone⟩, rfl⟩
  | @waits waiting hands step past call announce next _ ih =>
    unfold Batch.resumeAll at h
    obtain ⟨rest, _, hend, hthrough, hrest⟩ :=
      through_of_finish ha hr (next (.error .cancelled)) sit
    obtain ⟨history, hgoes, hgains⟩ : ∃ history,
        (Errand.pending call announce next).Goes history (.free (.done ())) ∧
          Gains recalled memory sit history (env.finish (next (.error .cancelled)) sit).1 := by
      refine ⟨.answered call (.error .cancelled) :: rest, .head (.answer _) hthrough, ?_⟩
      have hnone : Gains recalled memory sit [.answered call (.error .cancelled)] sit :=
        ⟨(List.append_nil _).symm, by simp [hr.cancelled]⟩
      exact hnone.trans hrest
    dsimp only at h
    rw [hend] at h
    have hnow : (s.grow history
        (before ++ ⟨step, past ++ history, .free (.done ())⟩ :: hands)).hands =
        (before ++ [⟨step, past ++ history, .free (.done ())⟩]) ++ hands := List.append_cons ..
    obtain ⟨record, hands', hworks, hgains', hdone, rfl⟩ := ih h hnow
    rw [grow_grow] at hworks
    refine ⟨history ++ record, ⟨step, past ++ history, .free (.done ())⟩ :: hands', ?_,
      hgains.trans hgains', List.forall_mem_cons.2 ⟨rfl, hdone⟩, rfl⟩
    simpa using (works_of_goes hgoes hs).trans hworks

/-- Steps are announced, and then begun. -/
theorem works_of_announced {steps : List Step}
    (h : Batch.beginAll (w.start env) stage steps {} (env.postAll (steps.map .stepStarting) sit) =
      (sit', b, waiting))
    (hstuck : b.stuck = false) (hs : s.waiting = steps) : ∃ record hands,
      ReflTransGen (Work w) s (Scene.grow { s with waiting := [] } record (s.hands ++ hands)) ∧
        Gains recalled memory sit record sit' ∧ Waits env waiting hands ∧ b = {} := by
  have hannounced := works_of_waiting w hs
  have hposted := Gains.postAll hr (steps.map Event.stepStarting) sit
  have hnow : (Scene.grow { s with waiting := [] } ((steps.map Event.stepStarting).map .posted)
      (s.hands ++ steps.map (.begin w))).hands = s.hands ++ steps.map (.begin w) := rfl
  obtain ⟨record, hands, hworks, hgains, hwaits, hb⟩ := works_of_beginAll ha hr h hstuck hnow
  rw [grow_grow] at hworks
  exact ⟨_, hands, hannounced.trans hworks, hposted.trans hgains, hwaits, hb⟩

/-- **A batch is run by work.** -/
theorem works_of_batch {steps : List Step}
    (h : Batch.run env (w.start env) stage steps sit = (sit', b)) (hstuck : b.stuck = false)
    (hs : s.waiting = steps) : ∃ record hands,
      ReflTransGen (Work w) s (Scene.grow { s with waiting := [] } record (s.hands ++ hands)) ∧
        Gains recalled memory sit record sit' ∧ (∀ hand ∈ hands, hand.isDone = true) ∧
          b.crashed = [] := by
  unfold Batch.run at h
  dsimp only at h
  cases hbegin : Batch.beginAll (w.start env) stage steps {}
      (env.postAll (steps.map .stepStarting) sit) with
  | mk sit₁ rest =>
    obtain ⟨b₁, waiting⟩ := rest
    rw [hbegin] at h
    dsimp only at h
    split at h
    · next hnone =>
      obtain ⟨rfl, rfl⟩ := Prod.mk.inj h
      obtain ⟨record, hands, hworks, hgains, hwaits, rfl⟩ :=
        works_of_announced ha hr hbegin hstuck hs
      rw [List.isEmpty_iff.1 hnone] at hwaits
      exact ⟨record, hands, hworks, hgains, hwaits.isDone, rfl⟩
    · obtain ⟨sit₂, hidle, hsit₂⟩ : ∃ sit₂, Gains recalled memory sit₁ [] sit₂ ∧
          (if env.isCancelled sit₁.world then sit₁
            else { sit₁ with world := env.whenIdle sit₁.world }) = sit₂ := by
        refine ⟨_, ?_, rfl⟩
        split
        · exact .refl sit₁
        · exact ⟨(List.append_nil _).symm, (hr.idle _).trans (List.append_nil _).symm⟩
      rw [hsit₂] at h
      split at h
      · have hbegan : b₁.stuck = false := by
          by_contra hnot
          have hlater := Moment.stuck_of_resumeAll waiting sit₂ b₁ (by simpa using hnot)
          rw [h, hstuck] at hlater
          simp at hlater
        obtain ⟨record, hands, hworks, hgains, hwaits, rfl⟩ :=
          works_of_announced ha hr hbegin hbegan hs
        have hnow : (Scene.grow { s with waiting := [] } record (s.hands ++ hands)).hands =
            s.hands ++ hands := rfl
        obtain ⟨record', hands', hworks', hgains', hdone, hb⟩ :=
          works_of_resumeAll ha hr hwaits h hnow
        rw [grow_grow] at hworks'
        have hgains'' := (hgains.trans hidle).trans hgains'
        rw [List.append_nil] at hgains''
        exact ⟨_, hands', hworks.trans hworks', hgains'', hdone, congrArg BatchEnd.crashed hb⟩
      · rw [← (Prod.mk.inj h).2] at hstuck
        simp at hstuck

/-! ## Runs -/

omit ha hr in
/-- Where nobody is at work an interruption is noted, if there is one that was not noted before. -/
theorem noteInterruption_cases (env : Surroundings σ) (noted : Bool) (sit : Situation σ) :
    Execution.noteInterruption env noted sit = (noted, sit) ∨
      noted = false ∧
        Execution.noteInterruption env noted sit = (true, env.post .interrupted sit) := by
  unfold Execution.noteInterruption
  split
  · next hnow => exact .inr ⟨by simpa using (Bool.and_eq_true_iff.1 hnow).1, rfl⟩
  · exact .inl rfl

/-- Whether the scene is the situation, as far as events and the memory of the surroundings go. -/
structure Shows (recalled : Deed → Option β) (memory : σ → List β) (sit : Situation σ) (s : Scene) :
    Prop where
  log : s.log = sit.log
  memory : s.record.filterMap recalled = memory sit.world

variable {m : Machine} {u : Scene} {record : List Deed}

omit ha hr in
theorem Shows.gains (h : Shows recalled memory sit s) (hg : Gains recalled memory sit record sit')
    (hu : u.record = s.record ++ record) : Shows recalled memory sit' u where
  log := by rw [Scene.log, hu, eventsOf_append, hg.log, ← h.log, Scene.log]
  memory := by rw [hu, List.filterMap_append, hg.memory, h.memory]

/-- Whether the loop comes to the scene between two batches. -/
structure At (w : Worker) (m : Machine) (noted deciding : Bool) (s : Scene) : Prop where
  reachable : Reachable w m s
  idle : s.IsIdle
  cancelled : s.cancelled = noted
  noted : s.noted = noted
  deciding : s.deciding = deciding

variable {noted : Bool}

omit ha in
/-- At the top of the loop an interruption is noted, and then it is time to decide. -/
theorem At.decides (h : At w m noted false s) (hs : Shows recalled memory sit s) :
    ∃ u, At w m (Execution.noteInterruption env noted sit).1 true u ∧
      Shows recalled memory (Execution.noteInterruption env noted sit).2 u := by
  rcases noteInterruption_cases env noted sit with heq | ⟨rfl, heq⟩ <;> rw [heq]
  · have hnothing : s.cancelled = false ∨ s.noted = true := by
      rw [h.cancelled, h.noted]
      cases noted <;> simp
    exact ⟨_, ⟨.tail h.reachable (.pass h.idle h.deciding hnothing), h.idle, h.cancelled, h.noted,
      rfl⟩, hs.log, hs.memory⟩
  · have hmoves := (ReflTransGen.tail h.reachable .cancel).tail
      (.check h.idle h.deciding rfl h.noted)
    exact ⟨_, ⟨hmoves, h.idle, rfl, rfl, rfl⟩, hs.gains (Gains.post hr .interrupted sit) rfl⟩

omit ha in
/-- An interruption may be noted as soon as a batch is over. -/
theorem At.notes (h : At w m noted false s) (hs : Shows recalled memory sit s) :
    ∃ u, At w m (Execution.noteInterruption env noted sit).1 false u ∧
      Shows recalled memory (Execution.noteInterruption env noted sit).2 u := by
  rcases noteInterruption_cases env noted sit with heq | ⟨rfl, heq⟩ <;> rw [heq]
  · exact ⟨s, h, hs⟩
  · have hmoves := (ReflTransGen.tail h.reachable .cancel).tail
      (.notice h.idle.1 h.deciding rfl h.noted)
    exact ⟨_, ⟨hmoves, h.idle, rfl, rfl, h.deciding⟩,
      hs.gains (Gains.post hr .interrupted sit) rfl⟩

/-- A batch leads from a decision back to the top of the loop. -/
theorem At.batch {steps : List Step} (h : At w m noted true s) (hs : Shows recalled memory sit s)
    (hd : m.next sit.log = .dispatch steps)
    (hb : Batch.run env (w.start env) .run steps sit = (sit', b)) (hstuck : b.stuck = false) :
    b.crashed = [] ∧ ∃ u, At w m noted false u ∧ Shows recalled memory sit' u := by
  obtain ⟨record, hands, hworks, hgains, hdone, hcrashed⟩ :=
    works_of_batch ha hr hb hstuck (s := s.begin steps) rfl
  have hdispatch : Move w m s (s.begin steps) := .dispatch h.idle h.deciding (hs.log ▸ hd)
  have hmoves := (ReflTransGen.tail h.reachable hdispatch).trans
    (hworks.lift id fun _ _ => Move.work)
  refine ⟨hcrashed, _, ⟨hmoves, ⟨rfl, ?_⟩, h.cancelled, h.noted, rfl⟩, hs.gains hgains rfl⟩
  exact List.forall_mem_append.2 ⟨h.idle.2, hdone⟩

/-- The loop of the run stage goes through reachable scenes. -/
theorem At.runStage {rounds : Nat} {result : TaskResult} (h : At w m noted false s)
    (hs : Shows recalled memory sit s)
    (hrun : Execution.runStage env (w.start env) m rounds noted sit = .ended result sit') :
    ∃ u, Reachable w m u ∧ Ends m u result ∧ Shows recalled memory sit' u := by
  induction rounds generalizing noted sit s with
  | zero => simp [Execution.runStage] at hrun
  | succ rounds ih =>
    obtain ⟨v, hv, hshows⟩ := h.decides hr hs
    unfold Execution.runStage at hrun
    generalize Execution.noteInterruption env noted sit = looked at hrun hv hshows
    obtain ⟨noted, sit⟩ := looked
    dsimp only at hrun hv hshows
    split at hrun
    · next result' hnext =>
      obtain ⟨rfl, rfl⟩ := Course.ended.inj hrun
      exact ⟨v, hv.reachable, ⟨hv.idle, hv.deciding, hshows.log ▸ hnext⟩, hshows⟩
    · next hnext =>
      have hmove : Move w m v { v.remark Moment.stallEvent with deciding := false } :=
        .stall hv.idle hv.deciding (hshows.log ▸ hnext)
      refine ih ⟨hv.reachable.tail hmove, hv.idle, hv.cancelled, hv.noted, rfl⟩ ?_ hrun
      exact hshows.gains (Gains.post hr Moment.stallEvent sit) rfl
    · next steps hnext =>
      cases hb : Batch.run env (w.start env) .run steps sit with
      | mk sit₁ b =>
        rw [hb] at hrun
        dsimp only at hrun
        split at hrun
        · simp at hrun
        · next hstuck =>
          obtain ⟨hcrashed, v₁, hv₁, hshows₁⟩ :=
            hv.batch ha hr hshows hnext hb (by simpa using hstuck)
          rw [hcrashed] at hrun
          obtain ⟨v₂, hv₂, hshows₂⟩ := hv₁.notes hr hshows₁
          exact ih hv₂ hshows₂ hrun

/-- The groups of a plan are carried out one after the other. -/
theorem cleans_of_runGroups {groups : List (List Step)} (hi : s.IsIdle)
    (hs : Shows recalled memory sit s)
    (hrun : Execution.runGroups env (w.start env) groups sit = .ended () sit') :
    ∃ u, Cleans w groups s u ∧ Shows recalled memory sit' u := by
  induction groups generalizing sit s with
  | nil =>
    obtain ⟨-, rfl⟩ := Course.ended.inj hrun
    exact ⟨s, .done s, hs⟩
  | cons group groups ih =>
    unfold Execution.runGroups at hrun
    cases hb : Batch.run env (w.start env) .cleanup group sit with
    | mk sit₁ b =>
      rw [hb] at hrun
      dsimp only at hrun
      split at hrun
      · simp at hrun
      · next hstuck =>
        obtain ⟨record, hands, hworks, hgains, hdone, hcrashed⟩ :=
          works_of_batch ha hr hb (by simpa using hstuck) (s := s.begin group) rfl
        rw [hcrashed] at hrun
        have hidle : (Scene.grow { s.begin group with waiting := [] } record
            (s.hands ++ hands)).IsIdle :=
          ⟨rfl, List.forall_mem_append.2 ⟨hi.2, hdone⟩⟩
        obtain ⟨u, hcleans, hshows⟩ := ih hidle (hs.gains hgains rfl) hrun
        exact ⟨u, .group hworks hidle hcleans, hshows⟩

theorem concludes_of_cleanupStage {result : TaskResult} {manual : ManualCleanup} (hi : s.IsIdle)
    (hs : Shows recalled memory sit s)
    (hrun : Execution.cleanupStage env (w.start env) m result sit = .ended manual sit') :
    ∃ u, Concludes w m result manual s u ∧ Shows recalled memory sit' u := by
  unfold Execution.cleanupStage at hrun
  split at hrun
  · next manual' hdecision =>
    obtain ⟨rfl, rfl⟩ := Course.ended.inj hrun
    exact ⟨s, .kept (hs.log ▸ hdecision), hs⟩
  · next plan hdecision =>
    cases hgroups : Execution.runGroups env (w.start env) plan.groups sit with
    | stuck sit₁ =>
      rw [hgroups] at hrun
      simp [Course.bind] at hrun
    | ended _ sit₁ =>
      rw [hgroups] at hrun
      obtain ⟨rfl, rfl⟩ := Course.ended.inj hrun
      obtain ⟨u, hcleans, hu⟩ := cleans_of_runGroups ha hr hi hs hgroups
      exact ⟨u, hu.log ▸ .cleaned (hs.log ▸ hdecision) hcleans, hu⟩

/-- **Whoever runs a task goes through scenes**, and reports about the last of them. -/
theorem exists_scenes_of_runTask {project : Project} {host : Host} {world world' : σ}
    {r : TaskReport} (hnone : memory world = [])
    (hrun : Worker.runTask env project host m world = .ended r world') :
    ∃ s u result manual, Reachable (.forTask project host m) m s ∧ Ends m s result ∧
      Concludes (.forTask project host m) m result manual s u ∧
      r = Execution.report m result manual u.log ∧
      u.record.filterMap recalled = memory world' := by
  unfold Worker.runTask at hrun
  generalize Worker.forTask project host m = w at hrun
  have hstart : At w m false false {} := ⟨.refl, ⟨rfl, by simp⟩, rfl, rfl, rfl⟩
  have hshows : Shows recalled memory (⟨world, []⟩ : Situation σ) {} := ⟨rfl, hnone.symm⟩
  unfold Execution.run at hrun
  cases hstage : Execution.runStage env (w.start env) m m.graph.roundLimit false ⟨world, []⟩ with
  | stuck sit =>
    rw [hstage] at hrun
    simp [Course.bind] at hrun
  | ended result sit =>
    obtain ⟨s, hreach, hends, hs⟩ := hstart.runStage ha hr hshows hstage
    rw [hstage] at hrun
    cases hcleanup : Execution.cleanupStage env (w.start env) m result sit with
    | stuck sit₁ =>
      dsimp only [Course.bind] at hrun
      rw [hcleanup] at hrun
      simp at hrun
    | ended manual sit₁ =>
      dsimp only [Course.bind] at hrun
      rw [hcleanup] at hrun
      obtain ⟨rfl, rfl⟩ := Course.ended.inj hrun
      obtain ⟨u, hconcludes, hu⟩ := concludes_of_cleanupStage ha hr hends.1 hs hcleanup
      refine ⟨s, u, result, manual, hreach, hends, hconcludes, ?_, hu.memory⟩
      rw [hu.log]

end Scene

/-! ## A run to look at -/

namespace Obliging

/-- What an engine says that does whatever it is asked for. Its containers have numbers. -/
def answer (successes : List Success) : (call : EngineCall) → call.Answer
  | .buildImage _ | .pullImage .. => (⟨"image"⟩ : Image)
  | .createNetwork .. => (⟨"network"⟩ : Network)
  | .createContainer request => (⟨toString successes.length, request.name⟩ : Handle)
  | .deleteNetwork _ | .startContainer _ | .stopContainer _ | .removeContainer _ => ()
  | .waitForExit _ => (0 : Int)
  | .exec _ => (⟨0, ""⟩ : ExecResult)
  | .inspect _ => ({} : Inspection)
  | .waitForEvent .. => HealthEvent.healthy

/-- Surroundings with an engine that does whatever it is asked for, except what it refuses. -/
def surroundings (refuses : EngineCall → Bool) : Surroundings (List Success) where
  ask := fun _ call successes =>
    if refuses call then (([], .reply (.error (.io "refused"))), successes)
    else (([], .reply (.ok (answer successes call))), successes ++ [⟨call, answer successes call⟩])
  change := fun _ successes => (.ok (), successes)
  isCancelled := fun _ => false

variable (refuses : EngineCall → Bool)

theorem answers : (surroundings refuses).Answers := by
  intro now call successes
  unfold surroundings
  dsimp only
  split
  · exact .inl ⟨_, rfl⟩
  · exact .inl ⟨_, rfl⟩

theorem remembers : (surroundings refuses).Remembers Deed.success? id where
  unposted := fun _ => rfl
  unasked := fun _ => rfl
  cancelled := fun _ => rfl
  replied := by
    intro now call successes reply h
    unfold surroundings at h ⊢
    dsimp only at h ⊢
    split at h
    · next hrefused =>
      obtain rfl := Response.reply.inj h
      rw [if_pos hrefused]
      exact (List.append_nil _).symm
    · next hrefused =>
      obtain rfl := Response.reply.inj h
      rw [if_neg hrefused]
      rfl
  waits := by
    intro now call successes h
    unfold surroundings at h
    dsimp only at h
    split at h <;> simp at h
  changed := fun _ successes => (List.append_nil successes).symm
  idle := fun _ => rfl
  observed := fun _ _ => rfl

end Obliging

/-! A workshop in which somebody works at a bench, by the light of a lamp, with tools that outlive
the work. -/

namespace Workshop

/-- The project. -/
def project : Project where
  settings := {
    projectName := "workshop"
    containers := .ofList [
      ("lamp", { image := some "glass" }),
      ("bench", { image := some "wood", dependencies := ["lamp"],
                  volumes := [.cache "tools" "/tools"],
                  runAsCurrentUser := ⟨true, some "/home"⟩ })]
    tasks := .ofList [("work", { run := some { container := "bench" } })] }
  valid := by decide

/-- What the work needs. -/
def graph : Graph where
  projectName := "workshop"
  taskName := "work"
  run := { container := "bench" }
  nodes := Graph.nodesOf project (.ofList [("lamp", ∅), ("bench", .ofList ["lamp"])])

/-- The work. -/
def machine : Machine := ⟨graph, { task := "work" }⟩

theorem resolve_project : Graph.resolve project "work" = .ok machine.graph := by decide +kernel

/-- Where the work is done. -/
def host : Host where
  user := ⟨1000, 1000, "joiner", "joiners"⟩
  temporaryDirectory := ⟨"/tmp"⟩
  suffix := "1"

/-- How the work goes. -/
def course (refuses : EngineCall → Bool) : Course (List Success) TaskReport :=
  Worker.runTask (Obliging.surroundings refuses) project host machine []

end Workshop

end Stevedore
