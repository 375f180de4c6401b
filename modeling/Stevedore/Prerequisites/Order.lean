import Stevedore.Prerequisites.Wildcard
import Stevedore.Project.Check
import Stevedore.Resolution

/-!
Which tasks to carry out, and in which order, to carry out one task: its prerequisites come before
it, each task once.
-/

namespace Stevedore

namespace Project

/-- A list of prerequisites with its patterns replaced by the tasks that fit them, in order of their
names. -/
def expanded (project : Project) (entries : List String) : List String :=
  entries.flatMap fun entry =>
    if Wildcard.isPattern entry then
      project.settings.tasks.keys.filter (Wildcard.admits entry)
    else [entry]

/-- The prerequisites of a task. -/
def prerequisites (project : Project) (task : String) : List String :=
  match project.task? task with
  | none => []
  | some settings => project.expanded settings.prerequisites

/-- The first thing wrong with the prerequisites of a task that was reached by `path`: one does
not exist, or lies on the path itself. -/
def prerequisiteProblem? (project : Project) (task : String) (path : List String) :
    Option ResolutionProblem :=
  (project.prerequisites task).findSome? fun prerequisite =>
    if (project.task? prerequisite).isNone then some (.prerequisiteMissing task prerequisite)
    else if prerequisite ∈ path then some (.prerequisiteCycle (path ++ [prerequisite]))
    else none

/-- Adds a task and its prerequisites to the tasks that are already in order. No path is longer
than the number of tasks, which bounds the depth of the search. -/
def schedule (project : Project) :
    Nat → List String → String → List String → Except ResolutionProblem (List String)
  | 0, path, _, _ => .error (.prerequisiteCycle path)
  | depth + 1, path, task, order => do
    if let some problem := project.prerequisiteProblem? task path then throw problem
    let order ← (project.prerequisites task).foldlM
      (fun order prerequisite =>
        if prerequisite ∈ order then .ok order
        else schedule project depth (path ++ [prerequisite]) prerequisite order)
      order
    return order ++ [task]

/-- The tasks to carry out for `task`, which comes last. -/
def executionOrder (project : Project) (task : String) (skipPrerequisites : Bool) :
    Except ResolutionProblem (List String) :=
  if (project.task? task).isNone then .error (.taskMissing task)
  else if skipPrerequisites then .ok [task]
  else project.schedule (project.settings.tasks.size + 1) [task] task []

end Project

end Stevedore
