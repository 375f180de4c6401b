import Stevedore.Graph.Teardown
import Stevedore.Session.Plan
import Stevedore.Text.Quoted

/-!
A session told before it is run: the order of its tasks, and for each task its containers, their
images and dependencies, and the order in which they would be cleaned up.
-/

namespace Stevedore

/-- A container and what is set for it. -/
def Graph.containerOutline (g : Graph) (c : Container) : List String :=
  let image :=
    match c.image with
    | .build directory dockerfile _ => s!"      build: {directory.text} ({dockerfile})"
    | .pull reference => s!"      image: {reference}"
  let dependencies := (g.dependencies c.name).toList
  let setup := c.setupCommands.length
  [s!"  - {c.name}", image] ++
    (if dependencies.isEmpty then []
      else [s!"      depends on: {Text.quotedSet dependencies}"]) ++
    (if setup = 0 then [] else [s!"      setup commands: {setup}"]) ++
    (if c.runsAsCurrentUser then ["      run as current user: true"] else [])

/-- The order of a cleanup. -/
def Graph.teardownOutline (g : Graph) : List String :=
  (g.teardownOrder (.ofList g.names)).zipIdx.map fun (group, i) =>
    let names := ", ".intercalate group
    s!"  {i + 1}. {names}"

/-- A task and its containers. -/
def Graph.outline (g : Graph) : List String :=
  [s!"  project = {g.projectName}", s!"  task = {g.taskName}", s!"  main container = {g.main}"] ++
    g.run.command.toList.map ("  command = " ++ ·) ++
    ["", s!"containers ({g.nodes.size}):"] ++ g.containers.flatMap g.containerOutline ++
    ["", "cleanup order:"] ++ g.teardownOutline

/-- A task of a session. -/
def PlannedTask.outline : PlannedTask → List String
  | onlyPrerequisites task => [s!"  task = {task} (prerequisites only)"]
  | run m => m.graph.outline

/-- A session. -/
def Session.outline (tasks : List PlannedTask) : List String :=
  let names := ", ".intercalate (tasks.map (·.name))
  ["dockhand dry-run", s!"  execution order = {names}"] ++
    tasks.flatMap fun task => "" :: task.outline

end Stevedore
