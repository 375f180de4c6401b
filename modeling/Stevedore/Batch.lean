import Stevedore.Surroundings

/-!
Running the steps of a batch. All of them are announced first. Then each runs as far as it can, in
order; if some wait and the run is interrupted, these go on in the order in which they began to
wait. The batch is over when every step has ended.
-/

namespace Stevedore

/-- A way to begin a step. -/
abbrev Beginning (σ : Type) := Stage → Step → Situation σ → Situation σ × Pause σ

/-- What a batch comes to. -/
structure BatchEnd where
  /-- The steps that were broken off, in the order in which that happened. -/
  crashed : List Step := []
  /-- Whether some step never ends. -/
  stuck : Bool := false

namespace BatchEnd

/-- Takes in how a step ended. -/
def note (b : BatchEnd) (step : Step) : Ending → BatchEnd
  | .finished => b
  | .crashed => { b with crashed := b.crashed ++ [step] }
  | .stuck => { b with stuck := true }

end BatchEnd

namespace Batch

variable {σ : Type} (env : Surroundings σ) (start : Beginning σ)

/-- The steps that wait, and how they go on. -/
abbrev Waiting (σ : Type) := List (Step × (Situation σ → Situation σ × Ending))

/-- Begins the steps, one after the other. -/
def beginAll (stage : Stage) :
    List Step → BatchEnd → Situation σ → Situation σ × BatchEnd × Waiting σ
  | [], b, s => (s, b, [])
  | step :: rest, b, s =>
    let (s, pause) := start stage step s
    match pause with
    | .ended ending => beginAll stage rest (b.note step ending) s
    | .waiting resume =>
      let (s, b, waiting) := beginAll stage rest b s
      (s, b, (step, resume) :: waiting)

/-- Lets the waiting steps go on, one after the other. -/
def resumeAll : Waiting σ → BatchEnd → Situation σ → Situation σ × BatchEnd
  | [], b, s => (s, b)
  | (step, resume) :: rest, b, s =>
    let (s, ending) := resume s
    resumeAll rest (b.note step ending) s

/-- Runs the steps of a batch. -/
def run (stage : Stage) (steps : List Step) (s : Situation σ) : Situation σ × BatchEnd :=
  let s := env.postAll (steps.map .stepStarting) s
  let (s, b, waiting) := beginAll start stage steps {} s
  if waiting.isEmpty then (s, b)
  else
    let s := if env.isCancelled s.world then s else { s with world := env.whenIdle s.world }
    if env.isCancelled s.world then resumeAll waiting b s else (s, { b with stuck := true })

end Batch

end Stevedore
