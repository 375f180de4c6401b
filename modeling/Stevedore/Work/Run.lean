import Stevedore.Session.Run
import Stevedore.Work.Perform

/-!
Running planned tasks with workers: every task of a session gets a worker of its own, which knows
the project and the host.
-/

namespace Stevedore

/-- What a run takes over from the host that it runs on. -/
structure Host where
  user : User
  proxy : ProxyVariables := {}
  temporaryDirectory : Path
  /-- What tells the names of this run from those of others. -/
  suffix : String

/-- The worker for one task of a project. -/
def Worker.forTask (project : Project) (host : Host) (m : Machine) : Worker where
  graph := m.graph
  options := m.options
  names := .ofRun m.graph.projectName m.graph.taskName host.suffix
  caches := project.cacheStores
  user := host.user
  proxy := host.proxy
  temporaryDirectory := host.temporaryDirectory

namespace Worker

variable {σ : Type} (env : Surroundings σ)

/-- Begins a step by carrying out its program. -/
def start (w : Worker) : Beginning σ := fun stage step s => env.advance stage (w.perform step) s

/-- Runs one step by itself. A step that waits is interrupted. -/
def runStep (w : Worker) (step : Step) (world : σ) : (List Event × Ending) × σ :=
  match w.start env .run step ⟨world, []⟩ with
  | (s, .ended ending) => ((s.log, ending), s.world)
  | (s, .waiting resume) =>
    let (s, ending) := resume { s with world := env.whenIdle s.world }
    ((s.log, ending), s.world)

/-- Runs steps by themselves, one after the other, with the events that each posts. -/
def runAlone (w : Worker) : List Step → σ → List (List Event × Ending) × σ
  | [], world => ([], world)
  | step :: rest, world =>
    let (first, world) := w.runStep env step world
    let (others, world) := w.runAlone rest world
    (first :: others, world)

/-- Runs one task. -/
def runTask (project : Project) (host : Host) (m : Machine) : σ → Course σ TaskReport :=
  Execution.run env ((forTask project host m).start env) m m.graph.roundLimit

end Worker

end Stevedore
