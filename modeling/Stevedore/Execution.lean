import Stevedore.Batch
import Stevedore.Machine

/-!
Running a task: batch after batch until the task has ended, then cleanup. An interruption is noted
once, when a batch is over or before the next one starts. A run need not come to an end, because a
call to the engine need not; then it has no report.
-/

namespace Stevedore

/-- What is known about a task once it is over. -/
structure TaskReport where
  task : String
  result : TaskResult
  failureMessage : Option String
  cleanupFailureMessages : List String
  manualCleanup : ManualCleanup
  events : List Event
deriving DecidableEq

/-- The exit code of the task. -/
def TaskReport.exitCode (r : TaskReport) : Int := r.result.exitCode

/-- How far something gets: to its end with a result, or to a state from which it never returns. -/
inductive Course (σ α : Type) where
  | ended (result : α) (world : σ)
  | stuck (world : σ)
deriving DecidableEq

namespace Course

variable {σ α β : Type}

/-- One thing after another. -/
def bind : Course σ α → (α → σ → Course σ β) → Course σ β
  | ended a w, f => f a w
  | stuck w, _ => stuck w

/-- Another result of the same course. -/
def map (f : α → β) : Course σ α → Course σ β
  | ended a w => ended (f a) w
  | stuck w => stuck w

/-- The state that is reached. -/
def world : Course σ α → σ
  | ended _ w => w
  | stuck w => w

end Course

namespace Execution

variable {σ : Type} (env : Surroundings σ) (start : Beginning σ) (m : Machine)

/-- What is posted for a step that was broken off. -/
def crashEvent (step : Step) : Event := .executionFailed s!"Step '{step.text}' panicked."

/-- Notes an interruption that has not been noted yet. -/
def noteInterruption (noted : Bool) (s : Situation σ) : Bool × Situation σ :=
  if !noted && env.isCancelled s.world then (true, env.post .interrupted s) else (noted, s)

/-- Runs batches until the task has ended. Every batch starts something new, and there is a limit
to what can be started. -/
def runStage : Nat → Bool → Situation σ → Course (Situation σ) TaskResult
  | 0, _, s => .stuck s
  | rounds + 1, noted, s =>
    let (noted, s) := noteInterruption env noted s
    match m.next s.log with
    | .finished result => .ended result s
    | .stalled =>
      runStage rounds noted <|
        env.post (.executionFailed "The task cannot make progress: no steps are ready to run.") s
    | .dispatch steps =>
      let (s, b) := Batch.run env start .run steps s
      if b.stuck then .stuck s
      else
        let (noted, s) := noteInterruption env noted (env.postAll (b.crashed.map crashEvent) s)
        runStage rounds noted s

/-- Runs the groups of a plan that takes the run down. -/
def runGroups : List (List Step) → Situation σ → Course (Situation σ) Unit
  | [], s => .ended () s
  | group :: rest, s =>
    let (s, b) := Batch.run env start .cleanup group s
    if b.stuck then .stuck s
    else runGroups rest (env.postAll (b.crashed.map crashEvent) s)

/-- Cleans up after a task, if that is wanted. -/
def cleanupStage (result : TaskResult) (s : Situation σ) : Course (Situation σ) ManualCleanup :=
  match m.cleanup s.log result with
  | .skip manual => .ended manual s
  | .run plan =>
    (runGroups env start plan.groups s).bind fun _ s => .ended (.afterCleanup s.log) s

/-- The report of a run that has ended. -/
def report (result : TaskResult) (manual : ManualCleanup) (events : List Event) : TaskReport where
  task := m.graph.taskName
  result := result.afterCleanup events
  failureMessage := m.failureMessage? events result
  cleanupFailureMessages := m.cleanupFailureMessages events
  manualCleanup := manual
  events

/-- Runs a task, in at most `rounds` batches, and cleans up after it. -/
def run (rounds : Nat) (w : σ) : Course σ TaskReport :=
  let course :=
    (runStage env start m rounds false ⟨w, []⟩).bind fun result s =>
      (cleanupStage env start m result s).bind fun manual s =>
        .ended (report m result manual s.log) s
  match course with
  | .ended r s => .ended r s.world
  | .stuck s => .stuck s.world

end Execution

/-- As many batches as the run of a task can have: two for the network and the caches, six for the
stages of each container, and the ones that end it. -/
def Graph.roundLimit (g : Graph) : Nat := 6 * g.nodes.size + 6

end Stevedore
