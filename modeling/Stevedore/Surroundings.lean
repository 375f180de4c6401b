import Stevedore.Program

/-!
Running a program against an engine and a host. These are a state and the functions that move it
on (`Surroundings`); an engine may reply, keep a call waiting until the run is interrupted, break
the step off, or never come back.

`advance` runs a program until it ends or waits, and `finish` runs on from there once the run has
been interrupted. Calls that are made after that no longer wait, so nothing waits twice.
-/

namespace Stevedore

/-- How the engine takes a call. -/
inductive Response (α : Type) where
  | reply (result : Except EngineError α)
  /-- Waits until the run is interrupted, and fails then. -/
  | untilCancelled
  /-- Breaks the step off. -/
  | crash
  /-- Does not come back, whatever happens. -/
  | never

/-- The two parts of a run. Only the first can be interrupted. -/
inductive Stage where
  | run
  | cleanup
deriving DecidableEq, Repr

/-- An engine and a host whose state is a `σ`. -/
structure Surroundings (σ : Type) where
  /-- Takes a call, told whether the call is interrupted from the start. Progress comes before the
  response. -/
  ask : Bool → (call : EngineCall) → σ → (List Progress × Response call.Answer) × σ
  change : FileChange → σ → Except FileError Unit × σ
  /-- Whether the run has been interrupted. -/
  isCancelled : σ → Bool
  /-- What happens when every step waits. -/
  whenIdle : σ → σ := id
  /-- Takes notice of an event. -/
  observe : Event → σ → σ := fun _ w => w

/-- The state of the surroundings, and the events of the run so far. -/
structure Situation (σ : Type) where
  world : σ
  log : List Event := []
deriving DecidableEq

/-- How a step came to its end. -/
inductive Ending where
  | finished
  | crashed
  /-- It did not. -/
  | stuck
deriving DecidableEq, Repr

/-- Where a step stands when it cannot go on by itself. -/
inductive Pause (σ : Type) where
  | ended (ending : Ending)
  /-- It waits for the run to be interrupted, and goes on like this then. -/
  | waiting (resume : Situation σ → Situation σ × Ending)

namespace Surroundings

variable {σ : Type} (env : Surroundings σ)

/-- Posts an event. -/
def post (e : Event) (s : Situation σ) : Situation σ :=
  ⟨env.observe e s.world, s.log ++ [e]⟩

/-- Posts events. -/
def postAll (events : List Event) (s : Situation σ) : Situation σ :=
  events.foldl (fun s e => env.post e s) s

@[simp] theorem log_post (e : Event) (s : Situation σ) : (env.post e s).log = s.log ++ [e] := rfl

@[simp] theorem log_postAll (events : List Event) (s : Situation σ) :
    (env.postAll events s).log = s.log ++ events := by
  induction events generalizing s with
  | nil => simp [postAll]
  | cons e events ih =>
    have h := ih (env.post e s)
    rw [log_post, List.append_assoc] at h
    exact h

/-- Whether calls of this part of the run are interrupted. -/
def interrupts (stage : Stage) (w : σ) : Bool := stage = .run && env.isCancelled w

/-- Makes a call and posts its progress. -/
def askIn (stage : Stage) (call : EngineCall) (announce : Progress → Option Event)
    (s : Situation σ) : Response call.Answer × Situation σ :=
  let ((progress, response), world) := env.ask (env.interrupts stage s.world) call s.world
  (response, env.postAll (progress.filterMap announce) { s with world })

/-- Makes a change. -/
def changeIn (request : FileChange) (s : Situation σ) :
    Except FileError Unit × Situation σ :=
  let (result, world) := env.change request s.world
  (result, { s with world })

/-- Runs a program to its end in a run that has been interrupted. -/
def finish {α : Type} : Program α → Situation σ → Situation σ × Ending
  | .done _, s => (s, .finished)
  | .post e next, s => finish next (env.post e s)
  | .change request next, s =>
    let (result, s) := env.changeIn request s
    finish (next result) s
  | .ask call announce next, s =>
    let (response, s) := env.askIn .run call announce s
    match response with
    | .reply result => finish (next result) s
    | .untilCancelled => finish (next (.error .cancelled)) s
    | .crash => (s, .crashed)
    | .never => (s, .stuck)

/-- Runs a program until it ends or waits. -/
def advance (stage : Stage) {α : Type} : Program α → Situation σ → Situation σ × Pause σ
  | .done _, s => (s, .ended .finished)
  | .post e next, s => advance stage next (env.post e s)
  | .change request next, s =>
    let (result, s) := env.changeIn request s
    advance stage (next result) s
  | .ask call announce next, s =>
    let (response, s) := env.askIn stage call announce s
    match response with
    | .reply result => advance stage (next result) s
    | .untilCancelled =>
      if env.interrupts stage s.world then advance stage (next (.error .cancelled)) s
      else if stage = .run then (s, .waiting (env.finish (next (.error .cancelled))))
      else (s, .ended .stuck)
    | .crash => (s, .ended .crashed)
    | .never => (s, .ended .stuck)

end Surroundings

end Stevedore
