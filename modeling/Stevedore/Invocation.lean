import Stevedore.CommandLine
import Stevedore.Project.Document
import Stevedore.Session.Outline
import Stevedore.Work.Run

/-!
One call of the program, from its arguments to its exit status. Where it runs is a `Workplace`:
surroundings that can also be printed to and read from.

While a task runs, a line is printed for each thing that happens; what went wrong is told once the
session is over.
-/

namespace Stevedore

/-- A place to run in, with states in `σ`. -/
structure Workplace (σ : Type) where
  surroundings : Surroundings σ
  host : Host
  workingDirectory : Path
  /-- The text of a file, or why it cannot be read. -/
  read : Path → σ → Except String String
  print : String → σ → σ
  /-- Prints where mistakes are told. -/
  complain : String → σ → σ

/-- Why nothing is run. -/
inductive InvocationProblem where
  /-- The project file cannot be read. -/
  | unreadable (cause : String)
  /-- The project file is not written as one. -/
  | malformed
  | config (problem : ConfigProblem)
  | resolution (problem : ResolutionProblem)
deriving DecidableEq

/-- The problem in words. -/
def InvocationProblem.message : InvocationProblem → String
  | unreadable cause => s!"IO error: {cause}"
  | malformed => "TOML parsing error: the project file cannot be understood"
  | config problem => s!"Configuration error: {problem.message}"
  | resolution problem => problem.message

namespace Invocation

variable {σ : Type} (place : Workplace σ)

/-- The exit status of a call that is broken off by a second interruption. -/
def abandonedStatus : Int := 130

/-- Reads the project. -/
def project (file : Path) (w : σ) : Except InvocationProblem Project := do
  let text ← (place.read file w).mapError .unreadable
  let settings ← (Document.settings? text).elim (.error .malformed) .ok
  let project ← (Project.ofSettings settings).mapError .config
  return project.inDirectory (projectDirectory place.workingDirectory file)

/-- Prints lines. -/
def printLines (lines : List String) (w : σ) : σ :=
  lines.foldl (fun w line => place.print (line ++ "\n") w) w

/-- Prints mistakes, each after an empty line. -/
def complainLines (messages : List String) (w : σ) : σ :=
  messages.foldl (fun w message => place.complain ("\n" ++ message ++ "\n") w) w

/-- The surroundings in which what happens is printed. -/
def watched : Surroundings σ :=
  { place.surroundings with
    observe := fun e w => printLines place e.line?.toList (place.surroundings.observe e w) }

/-- The first task of a session that has something to run. -/
def firstRun? (tasks : List PlannedTask) : Option String :=
  tasks.findSome? fun
    | .onlyPrerequisites _ => none
    | .run m => some m.graph.taskName

/-- Runs one task. An empty line parts its lines from those of the task before. -/
def runTask (project : Project) (tasks : List PlannedTask) (m : Machine) (w : σ) :
    Course σ TaskReport :=
  let parted := if firstRun? tasks = some m.graph.taskName then w else place.print "\n" w
  Worker.runTask (watched place) project place.host m parted

/-- Tells what became of a task. -/
def tell (outcome : TaskOutcome) (w : σ) : σ :=
  match outcome with
  | .onlyPrerequisites _ => printLines place outcome.message?.toList w
  | .ran r =>
    complainLines place
      (r.failureMessage.toList ++ r.cleanupFailureMessages ++
        (r.manualCleanup.message? r.events).toList) w

/-- The exit code of a session as a number of 32 bits; a failure if it does not fit. -/
def exitCode (outcomes : List TaskOutcome) : Int :=
  let code := Session.exitCode outcomes
  if -2147483648 ≤ code ∧ code < 2147483648 then code else 1

/-- Does what the arguments ask for. -/
def run (c : CommandLine) (w : σ) : Except InvocationProblem (Course σ Int) := do
  let project ← project place c.projectFile w
  let tasks ← (Session.plan project c.options c.skipPrerequisites).mapError .resolution
  if c.dryRun then return .ended 0 (printLines place (Session.outline tasks) w)
  else
    return (Session.run (runTask place project tasks) tasks w).bind fun outcomes w =>
      .ended (exitCode outcomes) (outcomes.foldl (fun w o => tell place o w) w)

/-- The exit status that the system makes of an exit code: its last eight bits. -/
def status (code : Int) : Nat := (code % 256).toNat

/-- Tells a mistake that ends the program. -/
def giveUp (message : String) (w : σ) : Course σ Nat :=
  .ended 1 (place.complain (s!"dockhand error: {message}" ++ "\n") w)

/-- The whole program, with the log filter that its surroundings ask for. -/
def program (arguments : List String) (logFilter : Option String) (w : σ) : Course σ Nat :=
  match CommandLine.read arguments with
  | .error problem =>
    if problem.isRequest then .ended 0 (place.print (problem.message ++ "\n") w)
    else .ended 2 (place.complain (problem.message ++ "\n") w)
  | .ok c =>
    match LogFilter.choose c.logLevel logFilter with
    | .error malformed => giveUp place malformed.message w
    | .ok _ =>
      match run place c w with
      | .error problem => giveUp place problem.message w
      | .ok course => course.map status

end Invocation

end Stevedore
