import Stevedore.Graph.Basic
import Stevedore.Project.Check
import Stevedore.Resolution

/-!
Finding the containers that a task needs. The search goes depth first from the task's main
container, through the dependencies in order of their names, and keeps the path it came by: a
container that is met on its own path lies on a circle.
-/

namespace Stevedore.Graph

/-- The settings of a container that is referred to. -/
def find (project : Project) (name : String) (referrer : Referrer) :
    Except ResolutionProblem ContainerSettings :=
  match project.container? name with
  | some settings => .ok settings
  | none => .error (.containerMissing name referrer)

/-- The part of the path from `name` on. -/
def pathFrom (name : String) (path : List String) : List String :=
  path.dropWhile (· ≠ name)

/-- Adds a container, with everything it depends on, to what has been found. No path is longer than
the number of containers, which bounds the depth of the search. -/
def visit (project : Project) (task : String) :
    Nat → List String → NameMap NameSet → String → NameSet →
      Except ResolutionProblem (NameMap NameSet)
  | 0, path, _, name, _ => .error (.dependencyCycle task (path ++ [name]))
  | depth + 1, path, found, name, dependencies =>
    if found.contains name then .ok found
    else if name ∈ dependencies then .error (.selfDependency name)
    else if name ∈ path then .error (.dependencyCycle task (pathFrom name path ++ [name]))
    else do
      let found ← dependencies.toList.foldlM
        (fun found dependency => do
          let settings ← find project dependency (.container name)
          visit project task depth (path ++ [name]) found dependency
            (.ofList settings.dependencies))
        found
      return found.insert name dependencies

/-- The nodes for the containers that were found. -/
def nodesOf (project : Project) (found : NameMap NameSet) : NameMap Node :=
  .ofList <| found.entries.filterMap fun (name, dependencies) =>
    (project.container? name).map fun settings =>
      (name, ⟨.ofSettings project.baseDirectory name settings, dependencies⟩)

/-- The graph of the containers that a task needs. -/
def resolve (project : Project) (taskName : String) : Except ResolutionProblem Graph := do
  let some task := project.task? taskName | throw (.taskMissing taskName)
  let some run := task.run | throw (.nothingToRun taskName)
  if run.container ∈ task.dependencies then throw (.mainIsDependency taskName run.container)
  let main ← find project run.container (.task taskName)
  task.dependencies.forM fun name => discard <| find project name (.task taskName)
  let found ← visit project taskName (project.settings.containers.size + 2) [] ∅ run.container
    (.ofList (task.dependencies ++ main.dependencies))
  return { projectName := project.name, taskName, run, nodes := nodesOf project found }

end Stevedore.Graph
