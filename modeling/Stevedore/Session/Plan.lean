import Stevedore.Graph.Resolve
import Stevedore.Machine
import Stevedore.Prerequisites.Order

/-!
A requested task together with its prerequisites. Every task is resolved before any is run, so a
prerequisite that cannot be carried out stops the session before anything is touched.
-/

namespace Stevedore

/-- A task of a session. -/
inductive PlannedTask where
  /-- It has prerequisites and nothing to run itself. -/
  | onlyPrerequisites (task : String)
  | run (machine : Machine)
deriving DecidableEq

/-- The name of the task. -/
def PlannedTask.name : PlannedTask → String
  | onlyPrerequisites task => task
  | run m => m.graph.taskName

namespace Session

/-- Whether a task only groups its prerequisites. -/
def onlyGroups (project : Project) (task : String) : Bool :=
  match project.task? task with
  | none => false
  | some settings => settings.run.isNone && !settings.prerequisites.isEmpty

/-- The options for one task of a session that was asked for with `options`. -/
def optionsFor (options : Options) (task : String) : Options :=
  if task = options.task then options else options.forPrerequisite task

/-- Plans one task. -/
def planTask (project : Project) (options : Options) (task : String) :
    Except ResolutionProblem PlannedTask :=
  if onlyGroups project task then .ok (.onlyPrerequisites task)
  else (Graph.resolve project task).map fun graph => .run ⟨graph, optionsFor options task⟩

/-- The tasks of a session, in the order in which they run. -/
def plan (project : Project) (options : Options) (skipPrerequisites : Bool) :
    Except ResolutionProblem (List PlannedTask) := do
  let order ← project.executionOrder options.task skipPrerequisites
  order.mapM (planTask project options)

end Session

end Stevedore
