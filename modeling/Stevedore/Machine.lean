import Stevedore.NextSteps
import Stevedore.Report
import Stevedore.TeardownPlan

/-!
The decisions of a run. Each is a function of the task's graph, the options and the events so far:
what to start next, how the task ended, whether to clean up, and what is left for the user.
-/

namespace Stevedore

/-- A task with the options it is run with. -/
structure Machine where
  graph : Graph
  options : Options
deriving DecidableEq

/-- What a run does next. -/
inductive RunDecision where
  /-- Starts these steps together. -/
  | dispatch (steps : List Step)
  | finished (result : TaskResult)
  /-- The task is not over, and yet nothing may start. -/
  | stalled
deriving DecidableEq

/-- What is done about everything that was made. -/
inductive CleanupDecision where
  | run (plan : TeardownPlan)
  /-- It stays; the user is told how to remove it. -/
  | skip (manual : ManualCleanup)
deriving DecidableEq

namespace Machine

variable (m : Machine)

/-- How the task ended, if it has: an interruption counts before a failure, and a failure before
the exit of the main container. -/
def result? (s : Summary) : Option TaskResult :=
  if s.interrupted then some .cancelled
  else if s.hasFailed then some .failed
  else (s.exited.get? m.graph.main).map .succeeded

/-- The first steps of a list, as many as may run at once. At least one always may. -/
def limited (steps : List Step) : List Step :=
  match m.options.maxParallelism with
  | none => steps
  | some limit => steps.take (max limit 1)

/-- What to do next when no step is under way. -/
def next (events : List Event) : RunDecision :=
  let s := Summary.ofEvents events
  match m.result? s with
  | some result => .finished result
  | none =>
    match m.graph.nextSteps s with
    | [] => .stalled
    | steps => .dispatch (m.limited steps)

/-- What becomes of what was made, once the task has ended with a result. -/
def policy : TaskResult → CleanupPolicy
  | .succeeded _ => m.options.afterSuccess
  | .failed => m.options.afterFailure
  | .cancelled => .cleanup

/-- Whether to clean up. Containers are what there is to look into, so without any there is no
reason to keep the rest. -/
def cleanup (events : List Event) (result : TaskResult) : CleanupDecision :=
  let s := Summary.ofEvents events
  let plan := m.graph.teardownPlan s
  if m.policy result = .keep && !s.created.isEmpty then
    match result with
    | .succeeded _ => .skip (.afterTaskSuccess plan.commands)
    | _ => .skip (.afterTaskFailure plan.commands)
  else .run plan

/-- Why the task did not succeed. -/
def failureMessage? (events : List Event) : TaskResult → Option String
  | .succeeded _ => none
  | .cancelled => Event.interrupted.failureMessage? m.options
  | .failed => (Summary.ofEvents events).firstFailure.bind (·.failureMessage? m.options)

/-- What went wrong during cleanup. -/
def cleanupFailureMessages (events : List Event) : List String :=
  (Summary.ofEvents events).cleanupFailures.filterMap (·.failureMessage? m.options)

end Machine

/-- The result once cleanup is over: what succeeded has failed after all if it left something
behind. -/
def TaskResult.afterCleanup (events : List Event) (result : TaskResult) : TaskResult :=
  if result.isSuccess && !(Summary.ofEvents events).cleanupFailures.isEmpty then .failed else result

/-- What is left for the user after cleanup has run. -/
def ManualCleanup.afterCleanup (events : List Event) : ManualCleanup :=
  match manualCommands (.ofEvents events) with
  | [] => .notRequired
  | commands => .afterCleanupFailure commands

end Stevedore
