/-!
Why a task cannot be carried out at all: it names something that the project does not have, or
tasks or containers wait for each other in a circle. Nothing has happened yet when one of these is
found.
-/

namespace Stevedore

/-- What refers to a container by name. -/
inductive Referrer where
  | task (name : String)
  | container (name : String)
deriving DecidableEq, Repr

/-- The referrer in words. -/
def Referrer.describe : Referrer → String
  | task name => s!"task '{name}'"
  | container name => s!"container '{name}'"

/-- Why a task cannot be carried out. -/
inductive ResolutionProblem where
  | taskMissing (task : String)
  | nothingToRun (task : String)
  | prerequisiteMissing (task : String) (prerequisite : String)
  /-- Each task of the path has the next one as a prerequisite. -/
  | prerequisiteCycle (path : List String)
  | containerMissing (container : String) (referrer : Referrer)
  | selfDependency (container : String)
  /-- Each container of the path depends on the next one. -/
  | dependencyCycle (task : String) (path : List String)
  | mainIsDependency (task : String) (container : String)
deriving DecidableEq, Repr

namespace ResolutionProblem

/-- A circle of tasks in words. -/
def describeTasks : List String → String
  | [] => "task  has  as a prerequisite"
  | [first] => s!"task '{first}' has  as a prerequisite"
  | first :: second :: rest =>
    s!"task '{first}' has '{second}' as a prerequisite" ++
      String.join (rest.map fun name => s!", which has '{name}' as a prerequisite")

/-- A circle of containers in words. -/
def describeContainers (path : List String) : String :=
  let names := path.map fun name => s!"'{name}'"
  let first := names.headD ""
  let rest := ", which depends on ".intercalate names.tail
  s!"Container {first} depends on {rest}."

/-- The problem in words. -/
def message : ResolutionProblem → String
  | taskMissing task => s!"The task '{task}' does not exist."
  | nothingToRun task =>
    s!"The task '{task}' does not have a run configuration and cannot be executed."
  | prerequisiteMissing task prerequisite =>
    s!"The task '{prerequisite}' given as a prerequisite of '{task}' does not exist."
  | prerequisiteCycle path =>
    "There is a dependency cycle between tasks: " ++ describeTasks path ++ "."
  | containerMissing container referrer =>
    s!"The container '{container}' referenced by " ++ referrer.describe ++ " does not exist."
  | selfDependency container => s!"The container '{container}' cannot depend on itself."
  | dependencyCycle task path =>
    s!"There is a dependency cycle in task '{task}'. " ++ describeContainers path
  | mainIsDependency task container =>
    s!"The task '{task}' cannot have the container '{container}' as both the main task " ++
      "container and also a dependency."

end ResolutionProblem

end Stevedore
