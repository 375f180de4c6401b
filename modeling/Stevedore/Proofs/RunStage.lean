import Mathlib.Data.List.Perm.Basic
import Stevedore.Graph.Resolve
import Stevedore.Proofs.Moment

/-!
The loop of the run stage goes through reachable moments.

`Execution.runStage` takes the steps from outside (`Beginning`). All that is asked of them is that
each of them is orderly: whatever it posts are events of its own, and if it comes to an end it
posts exactly one event that says how, at last. With such steps every run that ends, ends in a
reachable moment with the same events and the same result (`reachable_of_runStage`).

A situation says nothing about the steps that are under way, since a batch is run in one go.
`Carries` says how far a batch has been carried in the middle of it, in the run stage or in any
other, and `Stands` where the run stands.

The last two sections run a small project with steps that succeed at once (`Prompt`, `Shop`).
-/

namespace Stevedore

open Relation

/-- Whether the events are those of a step that came to this end. -/
def Step.Tells (step : Step) (events : List Event) : Ending → Prop
  | .finished => ∃ reports last, events = reports ++ [last] ∧
      (∀ e ∈ reports, step.Reports e) ∧ step.EndsWith last
  | .crashed | .stuck => ∀ e ∈ events, step.Reports e

/-- Whether a step that waits goes on in an orderly way. -/
def Step.GoesOn {σ : Type} (step : Step) (resume : Situation σ → Situation σ × Ending) : Prop :=
  ∀ s, ∃ events, (resume s).1.log = s.log ++ events ∧ step.Tells events (resume s).2

/-- Whether a step has been orderly up to a pause. -/
def Step.Pauses {σ : Type} (step : Step) (events : List Event) : Pause σ → Prop
  | .ended ending => step.Tells events ending
  | .waiting resume => (∀ e ∈ events, step.Reports e) ∧ step.GoesOn resume

/-- Whether all steps are orderly when they are begun like this. -/
def Beginning.Orderly {σ : Type} (start : Beginning σ) : Prop :=
  ∀ stage step s, ∃ events, (start stage step s).1.log = s.log ++ events ∧
    step.Pauses events (start stage step s).2

/-- Whether every step comes to an end by itself when it is begun like this. -/
def Beginning.Ends {σ : Type} (start : Beginning σ) : Prop :=
  ∀ stage step s, ∃ ending, (start stage step s).2 = .ended ending ∧ ending ≠ .stuck

namespace Moment

/-- Whether a run comes to a moment with these events, after this many batches, at which exactly
these steps, in some order, are under way. -/
def Stands (m : Machine) (noted : Bool) (batches : Nat) (running : List Step)
    (log : List Event) : Prop :=
  ∃ underWay, underWay.Perm running ∧
    Reachable m { log, underWay, cancelled := noted, noted, batches }

/-- Whether what happens inside a batch leads from a moment to these events and to where exactly
these steps, in some order, are under way. -/
def Carries (base : Moment) (running : List Step) (log : List Event) : Prop :=
  ∃ underWay, underWay.Perm running ∧
    ReflTransGen Work base { base with log, waiting := [], underWay }

variable {σ : Type} {env : Surroundings σ} {start : Beginning σ} {m : Machine} {noted : Bool}
  {batches : Nat} {step : Step} {running rest : List Step} {log : List Event} {base : Moment}

theorem stands_start (m : Machine) : Stands m false 0 [] [] := ⟨[], .refl _, .start⟩

theorem Carries.perm {running' : List Step} (h : Carries base running log)
    (hp : running.Perm running') : Carries base running' log := by
  obtain ⟨underWay, hu, hr⟩ := h
  exact ⟨underWay, hu.trans hp, hr⟩

theorem erase_perm {underWay : List Step} (h : underWay.Perm (step :: rest)) :
    (underWay.erase step).Perm rest := by
  have he := h.erase step
  rwa [List.erase_cons_head] at he

/-! ## What a step posts -/

theorem Carries.report {e : Event} (h : Carries base (step :: rest) log)
    (own : step.Reports e) : Carries base (step :: rest) (log ++ [e]) := by
  obtain ⟨underWay, hu, hr⟩ := h
  have hmem : step ∈ underWay := hu.mem_iff.2 (List.mem_cons_self ..)
  exact ⟨underWay, hu, hr.tail (.report hmem own)⟩

theorem Carries.reports {events : List Event} (h : Carries base (step :: rest) log)
    (own : ∀ e ∈ events, step.Reports e) : Carries base (step :: rest) (log ++ events) := by
  induction events generalizing log with
  | nil => simpa using h
  | cons e events ih =>
    rw [List.append_cons]
    refine ih (h.report (own e (List.mem_cons_self ..))) ?_
    intro e' he'
    exact own e' (List.mem_cons_of_mem _ he')

theorem Carries.finish {e : Event} (h : Carries base (step :: rest) log)
    (own : step.EndsWith e) : Carries base rest (log ++ [e]) := by
  obtain ⟨underWay, hu, hr⟩ := h
  have hmem : step ∈ underWay := hu.mem_iff.2 (List.mem_cons_self ..)
  exact ⟨underWay.erase step, erase_perm hu, hr.tail (.finish hmem own)⟩

theorem Carries.crash (h : Carries base (step :: rest) log) :
    Carries base rest (log ++ [Execution.crashEvent step]) := by
  obtain ⟨underWay, hu, hr⟩ := h
  have hmem : step ∈ underWay := hu.mem_iff.2 (List.mem_cons_self ..)
  exact ⟨underWay.erase step, erase_perm hu, hr.tail (.crash hmem rfl)⟩

theorem Carries.crashes (h : Carries base running log) :
    Carries base [] (log ++ running.map Execution.crashEvent) := by
  induction running generalizing log with
  | nil => simpa using h
  | cons step rest ih =>
    rw [List.map_cons, List.append_cons]
    exact ih h.crash

theorem Carries.finished {events : List Event} (h : Carries base (step :: rest) log)
    (ht : step.Tells events .finished) : Carries base rest (log ++ events) := by
  obtain ⟨reports, last, rfl, hreports, hlast⟩ := ht
  rw [← List.append_assoc]
  exact (h.reports hreports).finish hlast

/-- The steps of a batch are announced one after the other. -/
theorem works_announced (t : Moment) :
    ReflTransGen Work t
      { t with
        log := t.log ++ t.waiting.map .stepStarting
        waiting := []
        underWay := t.underWay ++ t.waiting } := by
  induction hn : t.waiting generalizing t with
  | nil =>
    obtain ⟨log, waiting, underWay, _, _, _, _⟩ := t
    obtain rfl : waiting = [] := hn
    simpa using ReflTransGen.refl
  | cons step steps ih =>
    have hrest := ih { t.post (.stepStarting step) with
      waiting := steps, underWay := t.underWay ++ [step] } rfl
    rw [List.append_assoc, post_log, List.append_assoc] at hrest
    exact .head (.announce hn) hrest

/-- A batch can always come to its end. -/
theorem exists_idle (t : Moment) : ∃ u, ReflTransGen Work t u ∧ u.IsIdle := by
  obtain ⟨u, hu, hnil⟩ : ∃ u, ReflTransGen Work t u ∧ u.waiting = [] :=
    ⟨_, works_announced t, rfl⟩
  suffices h : ∃ v, ReflTransGen Work u v ∧ v.IsIdle by
    obtain ⟨v, hv, hidle⟩ := h
    exact ⟨v, hu.trans hv, hidle⟩
  clear hu
  induction hn : u.underWay generalizing u with
  | nil => exact ⟨u, .refl, hnil, hn⟩
  | cons step rest ih =>
    have hmem : step ∈ u.underWay := by simp [hn]
    obtain ⟨v, hv, hidle⟩ := ih (u.close step (Execution.crashEvent step)) hnil
      (by rw [close_underWay, hn, List.erase_cons_head])
    exact ⟨v, .head (.crash hmem hnil) hv, hidle⟩

/-- What happens inside a batch does not concern the loop around it. -/
theorem loop_of_work {t u : Moment} (h : ReflTransGen Work t u) :
    u.cancelled = t.cancelled ∧ u.deciding = t.deciding ∧ u.batches = t.batches := by
  induction h with
  | refl => exact ⟨rfl, rfl, rfl⟩
  | tail _ hw ih => cases hw <;> exact ih

theorem carries_announced (hunder : base.underWay = []) :
    Carries base base.waiting (base.log ++ base.waiting.map .stepStarting) := by
  have hworks := works_announced base
  rw [hunder] at hworks
  exact ⟨base.waiting, .refl _, hworks⟩

/-! ## A batch -/

theorem perm_later (step : Step) (first second rest : List Step) :
    (step :: (first ++ (second ++ rest))).Perm (first ++ (second ++ step :: rest)) := by
  rw [← List.append_assoc, ← List.append_assoc]
  exact List.perm_middle.symm

theorem stuck_note {b : BatchEnd} (h : b.stuck = true) (ending : Ending) :
    (b.note step ending).stuck = true := by
  cases ending with
  | finished | crashed => exact h
  | stuck => rfl

theorem stuck_of_beginAll (start : Beginning σ) (stage : Stage) (steps : List Step)
    (s : Situation σ) (b : BatchEnd) (h : b.stuck = true) :
    (Batch.beginAll start stage steps b s).2.1.stuck = true := by
  induction steps generalizing b s with
  | nil => exact h
  | cons step steps ih =>
    unfold Batch.beginAll
    obtain ⟨s', pause⟩ := start stage step s
    cases pause with
    | ended ending => exact ih _ _ (stuck_note h ending)
    | waiting resume => exact ih _ _ h

/-- Steps that are begun have ended, were broken off, or wait. -/
theorem Carries.beginAll (ho : start.Orderly) {stage : Stage} {steps others : List Step}
    {b : BatchEnd} {s : Situation σ} (h : Carries base (steps ++ (b.crashed ++ others)) s.log)
    {s' : Situation σ} {b' : BatchEnd} {waiting : Batch.Waiting σ}
    (hb : Batch.beginAll start stage steps b s = (s', b', waiting)) (hstuck : b'.stuck = false) :
    Carries base (waiting.map Prod.fst ++ (b'.crashed ++ others)) s'.log ∧
      ∀ w ∈ waiting, w.1.GoesOn w.2 := by
  induction steps generalizing others b s s' b' waiting with
  | nil =>
    obtain ⟨rfl, rfl, rfl⟩ : s = s' ∧ b = b' ∧ [] = waiting := by simpa [Batch.beginAll] using hb
    exact ⟨h, by simp⟩
  | cons step steps ih =>
    obtain ⟨events, hlog, hpause⟩ := ho stage step s
    unfold Batch.beginAll at hb
    generalize start stage step s = begun at hb hlog hpause
    obtain ⟨s₁, pause⟩ := begun
    cases pause with
    | ended ending =>
      cases ending with
      | finished =>
        have h' := h.finished hpause
        rw [← hlog] at h'
        exact ih h' hb hstuck
      | crashed =>
        -- It counts as under way until the end of the batch, when its crash is posted.
        have h' := h.reports hpause
        rw [← hlog] at h'
        refine ih (h'.perm ?_) hb hstuck
        simp only [BatchEnd.note, List.append_assoc, List.singleton_append]
        exact perm_later step steps b.crashed others
      | stuck =>
        have hs := stuck_of_beginAll start stage steps s₁ (b.note step .stuck) rfl
        dsimp only at hb
        rw [hb, hstuck] at hs
        simp at hs
    | waiting resume =>
      obtain ⟨hreports, hresume⟩ := hpause
      cases hrest : Batch.beginAll start stage steps b s₁ with
      | mk s₂ r =>
        obtain ⟨b₂, waiting₂⟩ := r
        dsimp only at hb
        rw [hrest] at hb
        obtain ⟨rfl, rfl, rfl⟩ : s₂ = s' ∧ b₂ = b' ∧ (step, resume) :: waiting₂ = waiting := by
          simpa using hb
        have h' := h.reports hreports
        rw [← hlog] at h'
        obtain ⟨hs, hw⟩ := ih (h'.perm (perm_later step steps b.crashed others)) hrest hstuck
        refine ⟨hs.perm (perm_later step _ _ _).symm, ?_⟩
        · intro w hmem
          rcases List.mem_cons.1 hmem with rfl | hmem
          · exact hresume
          · exact hw w hmem

theorem stuck_of_resumeAll (waiting : Batch.Waiting σ) (s : Situation σ) (b : BatchEnd)
    (h : b.stuck = true) : (Batch.resumeAll waiting b s).2.stuck = true := by
  induction waiting generalizing b s with
  | nil => exact h
  | cons first waiting ih =>
    unfold Batch.resumeAll
    obtain ⟨s', ending⟩ := first.2 s
    exact ih _ _ (stuck_note h ending)

/-- Steps that go on have ended or were broken off. -/
theorem Carries.resumeAll {waiting : Batch.Waiting σ} {b : BatchEnd} {s : Situation σ}
    (h : Carries base (waiting.map Prod.fst ++ b.crashed) s.log)
    (hw : ∀ w ∈ waiting, w.1.GoesOn w.2) {s' : Situation σ} {b' : BatchEnd}
    (hb : Batch.resumeAll waiting b s = (s', b')) (hstuck : b'.stuck = false) :
    Carries base b'.crashed s'.log := by
  induction waiting generalizing b s with
  | nil =>
    obtain ⟨rfl, rfl⟩ : s = s' ∧ b = b' := by simpa [Batch.resumeAll] using hb
    exact h
  | cons first waiting ih =>
    obtain ⟨step, resume⟩ := first
    obtain ⟨events, hlog, htells⟩ := hw _ (List.mem_cons_self ..) s
    have hw' : ∀ w ∈ waiting, w.1.GoesOn w.2 := fun w hmem => hw w (List.mem_cons_of_mem _ hmem)
    unfold Batch.resumeAll at hb
    dsimp only at hlog htells
    generalize resume s = resumed at hb hlog htells
    obtain ⟨s₁, ending⟩ := resumed
    cases ending with
    | finished =>
      have h' := h.finished htells
      rw [← hlog] at h'
      exact ih h' hw' hb
    | crashed =>
      have h' := h.reports htells
      rw [← hlog] at h'
      refine ih (h'.perm ?_) hw' hb
      have hp := perm_later step (waiting.map Prod.fst) b.crashed []
      rwa [List.append_nil] at hp
    | stuck =>
      have hs := stuck_of_resumeAll waiting s₁ (b.note step .stuck) rfl
      dsimp only at hb
      rw [hb, hstuck] at hs
      simp at hs

/-- When all steps of a batch have been begun, either none of them waits, or the ones that do go on
from the same events, or the batch never ends. -/
theorem batch_cases (env : Surroundings σ) {stage : Stage} {steps : List Step}
    {s s₁ : Situation σ} {b : BatchEnd} {waiting : Batch.Waiting σ}
    (hbegin : Batch.beginAll start stage steps {} (env.postAll (steps.map .stepStarting) s) =
      (s₁, b, waiting)) :
    ∃ s₂ : Situation σ, s₂.log = s₁.log ∧
      ((waiting = [] ∧ Batch.run env start stage steps s = (s₂, b)) ∨
        (waiting ≠ [] ∧ (Batch.run env start stage steps s = Batch.resumeAll waiting b s₂ ∨
          Batch.run env start stage steps s = (s₂, { b with stuck := true })))) := by
  unfold Batch.run
  dsimp only
  rw [hbegin]
  dsimp only
  split
  · next hnone => exact ⟨s₁, rfl, .inl ⟨List.isEmpty_iff.1 hnone, rfl⟩⟩
  · next hsome =>
    refine ⟨if env.isCancelled s₁.world then s₁
      else { s₁ with world := env.whenIdle s₁.world }, ?_, .inr ⟨?_, ?_⟩⟩
    · split <;> rfl
    · exact fun hnil => hsome (List.isEmpty_iff.2 hnil)
    · generalize (if env.isCancelled s₁.world then s₁
        else { s₁ with world := env.whenIdle s₁.world }) = s₂
      split
      · exact .inl rfl
      · exact .inr rfl

theorem beginAll_of_ends (he : start.Ends) {stage : Stage} {steps : List Step} {b : BatchEnd}
    {s : Situation σ} (hb : b.stuck = false) :
    ∃ s' b', Batch.beginAll start stage steps b s = (s', b', []) ∧ b'.stuck = false := by
  induction steps generalizing b s with
  | nil => exact ⟨s, b, rfl, hb⟩
  | cons step steps ih =>
    obtain ⟨ending, hending, hne⟩ := he stage step s
    unfold Batch.beginAll
    generalize start stage step s = begun at hending
    obtain ⟨s₁, pause⟩ := begun
    obtain rfl : pause = .ended ending := hending
    refine ih ?_
    cases ending with
    | finished | crashed => exact hb
    | stuck => exact absurd rfl hne

/-- A batch of such steps comes to an end. -/
theorem not_stuck_of_ends (env : Surroundings σ) (he : start.Ends) (stage : Stage)
    (steps : List Step) (s : Situation σ) :
    (Batch.run env start stage steps s).2.stuck = false := by
  obtain ⟨s₁, b, hbegin, hb⟩ := beginAll_of_ends he (b := {}) rfl
  obtain ⟨s₂, -, ⟨-, hrun⟩ | ⟨hsome, -⟩⟩ := batch_cases env hbegin
  · rw [hrun]
    exact hb
  · exact absurd rfl hsome

/-- What is left in the end of a batch are the steps that were broken off. -/
theorem Carries.batch (ho : start.Orderly) {stage : Stage} {steps : List Step} {s : Situation σ}
    (h : Carries base steps (s.log ++ steps.map .stepStarting))
    {s' : Situation σ} {b : BatchEnd} (hb : Batch.run env start stage steps s = (s', b))
    (hstuck : b.stuck = false) : Carries base b.crashed s'.log := by
  rw [← env.log_postAll] at h
  cases hbegin : Batch.beginAll start stage steps {} (env.postAll (steps.map .stepStarting) s) with
  | mk s₁ r =>
    obtain ⟨b₁, waiting⟩ := r
    have hbegun : b₁.stuck = false →
        Carries base (waiting.map Prod.fst ++ b₁.crashed) s₁.log ∧
          ∀ w ∈ waiting, w.1.GoesOn w.2 := by
      intro hs
      have h' : Carries base (steps ++ (([] : List Step) ++ []))
          (env.postAll (steps.map .stepStarting) s).log := by
        simpa using h
      have hall := Carries.beginAll ho h' hbegin hs
      simpa using hall
    obtain ⟨s₂, hlog, ⟨hnone, hrun⟩ | ⟨-, hrun | hrun⟩⟩ := batch_cases env hbegin
    · rw [hb] at hrun
      obtain ⟨rfl, rfl⟩ := Prod.mk.inj hrun
      have h' := (hbegun hstuck).1
      rw [hnone, ← hlog] at h'
      exact h'
    · rw [hb] at hrun
      cases hb₁ : b₁.stuck with
      | true =>
        have hs := stuck_of_resumeAll waiting s₂ b₁ hb₁
        rw [← hrun, hstuck] at hs
        simp at hs
      | false =>
        obtain ⟨h', hw⟩ := hbegun hb₁
        rw [← hlog] at h'
        exact h'.resumeAll hw hrun.symm hstuck
    · rw [hb] at hrun
      rw [(Prod.mk.inj hrun).2] at hstuck
      simp at hstuck

/-- **A batch is what happens inside a batch**: from the moment at which its steps wait to be
announced, with the steps that were broken off told of in the end. -/
theorem works_of_batch (ho : start.Orderly) {stage : Stage} {s s' : Situation σ} {b : BatchEnd}
    (hlog : base.log = s.log) (hunder : base.underWay = [])
    (hb : Batch.run env start stage base.waiting s = (s', b)) (hstuck : b.stuck = false) :
    ReflTransGen Work base
      { base with
        log := s'.log ++ b.crashed.map Execution.crashEvent
        waiting := []
        underWay := [] } := by
  have hannounced := carries_announced hunder
  rw [hlog] at hannounced
  obtain ⟨underWay, hnone, hworks⟩ := (hannounced.batch ho hb hstuck).crashes
  rwa [hnone.eq_nil] at hworks

/-! ## The loop -/

/-- While the steps of a batch are waited for, an interruption is noted if there is one. -/
theorem Stands.noteInterruption (env : Surroundings σ) {s : Situation σ}
    (h : Stands m noted batches running s.log) :
    Stands m (Execution.noteInterruption env noted s).1 batches running
      (Execution.noteInterruption env noted s).2.log := by
  unfold Execution.noteInterruption
  split
  · next hnow =>
    obtain ⟨underWay, hu, hr⟩ := h
    have hnew : noted = false := by simpa using (Bool.and_eq_true_iff.1 hnow).1
    subst hnew
    exact ⟨underWay, hu, (hr.move .cancel).move (.notice rfl rfl rfl rfl)⟩
  · exact h

/-- At the top of the loop an interruption is noted if there is one; then it is time to decide. -/
theorem Stands.decides (env : Surroundings σ) {s : Situation σ}
    (h : Stands m noted batches [] s.log) :
    Reachable m
      { log := (Execution.noteInterruption env noted s).2.log
        cancelled := (Execution.noteInterruption env noted s).1
        noted := (Execution.noteInterruption env noted s).1
        deciding := true
        batches } := by
  obtain ⟨underWay, hu, hr⟩ := h
  obtain rfl := hu.eq_nil
  unfold Execution.noteInterruption
  split
  · next hnow =>
    have hnew : noted = false := by simpa using (Bool.and_eq_true_iff.1 hnow).1
    subst hnew
    exact (hr.move .cancel).move (.check ⟨rfl, rfl⟩ rfl rfl rfl)
  · refine hr.move (.pass ⟨rfl, rfl⟩ rfl ?_)
    cases noted with
    | true => exact .inr rfl
    | false => exact .inl rfl

/-- One round of the loop, from one decision to the top again. -/
theorem stands_after_round (ho : start.Orderly) {steps : List Step} {s s' : Situation σ}
    {b : BatchEnd}
    (h : Reachable m { log := s.log, cancelled := noted, noted, deciding := true, batches })
    (hd : m.next s.log = .dispatch steps) (hb : Batch.run env start .run steps s = (s', b))
    (hstuck : b.stuck = false) :
    let crashes := env.postAll (b.crashed.map Execution.crashEvent) s'
    Stands m (Execution.noteInterruption env noted crashes).1 (batches + 1) []
      (Execution.noteInterruption env noted crashes).2.log := by
  have hbegun := h.move (.dispatch ⟨rfl, rfl⟩ rfl hd)
  have hend : Stands m noted (batches + 1) []
      (env.postAll (b.crashed.map Execution.crashEvent) s').log := by
    rw [env.log_postAll]
    exact ⟨[], .refl _, hbegun.works (works_of_batch ho rfl rfl hb hstuck)⟩
  exact hend.noteInterruption env

/-- **The loop of the run stage goes through reachable moments**, wherever it is entered. -/
theorem Stands.runStage (ho : start.Orderly) {rounds : Nat} {s : Situation σ}
    (h : Stands m noted batches [] s.log) {result : TaskResult} {s' : Situation σ}
    (hrun : Execution.runStage env start m rounds noted s = .ended result s') :
    ∃ t, Reachable m t ∧ t.log = s'.log ∧ Ends m t result := by
  induction rounds generalizing noted batches s with
  | zero => simp [Execution.runStage] at hrun
  | succ rounds ih =>
    have hr := h.decides env
    unfold Execution.runStage at hrun
    generalize Execution.noteInterruption env noted s = looked at hrun hr
    obtain ⟨noted, s⟩ := looked
    dsimp only at hrun hr
    split at hrun
    · next result' hnext =>
      obtain ⟨rfl, rfl⟩ := Course.ended.inj hrun
      exact ⟨_, hr, rfl, ⟨rfl, rfl⟩, rfl, hnext⟩
    · next hnext =>
      exact ih ⟨[], .refl _, hr.move (.stall ⟨rfl, rfl⟩ rfl hnext)⟩ hrun
    · next steps hnext =>
      cases hb : Batch.run env start .run steps s with
      | mk s₁ b =>
        rw [hb] at hrun
        dsimp only at hrun
        split at hrun
        · simp at hrun
        · next hstuck => exact ih (stands_after_round ho hr hnext hb (by simpa using hstuck)) hrun

/-- A run stage that ends, ends in a reachable moment with the same events. -/
theorem reachable_of_runStage (ho : start.Orderly) {rounds : Nat} {w : σ} {result : TaskResult}
    {s' : Situation σ}
    (hrun : Execution.runStage env start m rounds false ⟨w, []⟩ = .ended result s') :
    ∃ t, Reachable m t ∧ t.log = s'.log ∧ Ends m t result :=
  Stands.runStage ho (stands_start m) hrun

end Moment

/-! ## Runs to look at -/

/-- Whether there is an end like this. -/
def Course.endsWith {σ α : Type} (p : α → σ → Bool) : Course σ α → Bool
  | .ended result world => p result world
  | .stuck _ => false

theorem Course.exists_ended {σ α : Type} {p : α → σ → Bool} {c : Course σ α}
    (h : c.endsWith p = true) :
    ∃ result world, c = .ended result world ∧ p result world = true := by
  cases c with
  | ended result world => exact ⟨result, world, rfl, h⟩
  | stuck => simp [endsWith] at h

/-! ## Steps that succeed at once -/

namespace Prompt

/-- How a step succeeds when everything goes by the name of what it is for. -/
def success : Step → Event
  | .createNetwork => .networkCreated ⟨"network"⟩
  | .initialiseCaches => .cachesInitialised
  | .buildImage c _ => .imageBuilt c ⟨c⟩
  | .pullImage reference => .imagePulled reference ⟨reference⟩
  | .createContainer c _ _ => .containerCreated c ⟨c, c⟩
  | .startContainer c _ => .containerStarted c
  | .awaitHealth c _ => .containerHealthy c
  | .runSetupCommands c _ => .containerReady c
  | .runContainer c _ => .containerExited c 0
  | .stopContainer c _ => .containerStopped c
  | .removeContainer c _ => .containerRemoved c
  | .deleteFile path => .fileDeleted path
  | .deleteDirectory path => .directoryDeleted path
  | .deleteNetwork network => .networkDeleted network

theorem succeeds_success (step : Step) : step.Succeeds (success step) := by
  cases step <;> constructor

/-- Surroundings in which nothing is asked or changed, and nobody interrupts the run. -/
def surroundings : Surroundings Unit where
  ask := fun _ _ w => (([], .never), w)
  change := fun _ w => (.ok (), w)
  isCancelled := fun _ => false

/-- Every step succeeds when it is begun. -/
def start : Beginning Unit := fun _ step s =>
  (surroundings.post (success step) s, .ended .finished)

theorem orderly_start : start.Orderly := by
  intro stage step s
  refine ⟨[success step], rfl, [], success step, rfl, by simp, ?_⟩
  exact .inl (succeeds_success step)

end Prompt

/-! A shop whose shelf waits for a ladder, and whose till waits for the shelf. The two that are not
built share an image. -/

namespace Shop

/-- The project. -/
def project : Project where
  settings := {
    projectName := "shop"
    containers := .ofList [
      ("ladder", { image := some "wood" }),
      ("shelf", { image := some "wood", dependencies := ["ladder"] }),
      ("till", { buildDirectory := some ⟨"till"⟩, dependencies := ["shelf"] })]
    tasks := .ofList [("open", { run := some { container := "till" } })] }
  valid := by decide

/-- What opening the shop needs. -/
def graph : Graph where
  projectName := "shop"
  taskName := "open"
  run := { container := "till" }
  nodes := Graph.nodesOf project (.ofList [
    ("ladder", ∅), ("shelf", .ofList ["ladder"]), ("till", .ofList ["shelf"])])

/-- Opening the shop. -/
def machine : Machine := ⟨graph, { task := "open" }⟩

theorem resolve_project : Graph.resolve project "open" = .ok machine.graph := by decide +kernel

/-- What is posted when the shop opens and every step succeeds at once. -/
def log : List Event :=
  let ladder : Handle := ⟨"ladder", "ladder"⟩
  let shelf : Handle := ⟨"shelf", "shelf"⟩
  let till : Handle := ⟨"till", "till"⟩
  [.stepStarting .createNetwork, .stepStarting .initialiseCaches,
   .stepStarting (.pullImage "wood"), .stepStarting (.buildImage "till" ["shop-till"]),
   .networkCreated ⟨"network"⟩, .cachesInitialised,
   .imagePulled "wood" ⟨"wood"⟩, .imageBuilt "till" ⟨"till"⟩,
   .stepStarting (.createContainer "ladder" ⟨"wood"⟩ ⟨"network"⟩),
   .containerCreated "ladder" ladder,
   .stepStarting (.startContainer "ladder" ladder), .containerStarted "ladder",
   .stepStarting (.awaitHealth "ladder" ladder), .containerHealthy "ladder",
   .stepStarting (.runSetupCommands "ladder" ladder), .containerReady "ladder",
   .stepStarting (.createContainer "shelf" ⟨"wood"⟩ ⟨"network"⟩),
   .containerCreated "shelf" shelf,
   .stepStarting (.startContainer "shelf" shelf), .containerStarted "shelf",
   .stepStarting (.awaitHealth "shelf" shelf), .containerHealthy "shelf",
   .stepStarting (.runSetupCommands "shelf" shelf), .containerReady "shelf",
   .stepStarting (.createContainer "till" ⟨"till"⟩ ⟨"network"⟩),
   .containerCreated "till" till,
   .stepStarting (.startContainer "till" till), .containerStarted "till",
   .stepStarting (.awaitHealth "till" till), .containerHealthy "till",
   .stepStarting (.runSetupCommands "till" till), .containerReady "till",
   .stepStarting (.runContainer "till" till), .containerExited "till" 0]

/-- The shop comes to be open. -/
theorem reachable_log :
    ∃ t, Moment.Reachable machine t ∧ t.log = log ∧ Moment.Ends machine t (.succeeded 0) := by
  have hrun : Execution.runStage Prompt.surroundings Prompt.start machine machine.graph.roundLimit
      false ⟨(), []⟩ = .ended (.succeeded 0) ⟨(), log⟩ := by
    decide +kernel
  exact Moment.reachable_of_runStage Prompt.orderly_start hrun

end Shop

end Stevedore
