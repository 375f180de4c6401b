import Stevedore.Container

/-!
The containers that one task needs, and who depends on whom among them. The edges are kept on the
side of the dependent (`Node.dependencies`); `dependents` reads them backwards and `allDependents`
follows them backwards to the end.
-/

namespace Stevedore

/-- A container with its place in the graph. -/
structure Node where
  container : Container
  /-- The containers it waits for. For the main container the task's own dependencies count too. -/
  dependencies : NameSet
deriving DecidableEq

/-- The containers of one task. -/
structure Graph where
  projectName : String
  taskName : String
  /-- What the task asks its main container to do. -/
  run : RunSettings
  nodes : NameMap Node
deriving DecidableEq

namespace Graph

variable (g : Graph)

/-- The container that the task runs. -/
def main : String := g.run.container

/-- Whether `name` is the container that the task runs. -/
def isMain (name : String) : Bool := g.main = name

/-- The container called `name`. -/
def container? (name : String) : Option Container := (g.nodes.get? name).map (·.container)

/-- All containers, in order of their names. -/
def containers : List Container := g.nodes.values.map (·.container)

/-- The names of all containers. -/
def names : List String := g.nodes.keys

/-- The containers that `name` waits for. -/
def dependencies (name : String) : NameSet :=
  match g.nodes.get? name with
  | some node => node.dependencies
  | none => ∅

/-- The containers that wait for `name`. -/
def dependents (name : String) : NameSet :=
  .ofList ((g.nodes.filter fun _ node => node.dependencies.contains name).keys)

/-- Adds to `seen` the names of the frontier and everything that waits for them. Each round takes
the names not met before, so as many rounds as there are containers are enough. -/
def spread : Nat → List String → NameSet → NameSet
  | 0, _, seen => seen
  | rounds + 1, frontier, seen =>
    let fresh := frontier.filter fun name => name ∉ seen
    if fresh.isEmpty then seen
    else
      spread rounds (SortedSet.ofList (fresh.flatMap fun name => (g.dependents name).toList)).toList
        (fresh.foldl SortedSet.insert seen)

/-- The containers that wait for `name`, or for one that does, and so on. -/
def allDependents (name : String) : NameSet :=
  g.spread (g.nodes.size + 1) (g.dependents name).toList ∅

end Graph

end Stevedore
