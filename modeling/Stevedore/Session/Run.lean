import Stevedore.Execution
import Stevedore.Session.Plan

/-!
Running the tasks of a session one after another, up to the first that does not succeed.
-/

namespace Stevedore

/-- What became of one task of a session. -/
inductive TaskOutcome where
  | onlyPrerequisites (task : String)
  | ran (report : TaskReport)
deriving DecidableEq

namespace TaskOutcome

/-- The exit code of the task. -/
def exitCode : TaskOutcome → Int
  | onlyPrerequisites _ => 0
  | ran report => report.exitCode

/-- What the user is told about a task that only groups its prerequisites. -/
def message? : TaskOutcome → Option String
  | onlyPrerequisites task =>
    some s!"The task '{task}' only defines prerequisite tasks, nothing more to do."
  | ran _ => none

end TaskOutcome

namespace Session

variable {σ : Type}

/-- The exit code of a session: that of the last task that was run. -/
def exitCode (outcomes : List TaskOutcome) : Int :=
  (outcomes.getLast?.map (·.exitCode)).getD 0

/-- What becomes of one task. -/
def runPlanned (runTask : Machine → σ → Course σ TaskReport) :
    PlannedTask → σ → Course σ TaskOutcome
  | .onlyPrerequisites task, w => .ended (.onlyPrerequisites task) w
  | .run m, w => (runTask m w).map .ran

/-- Runs the tasks in order, up to the first that does not succeed. -/
def run (runTask : Machine → σ → Course σ TaskReport) :
    List PlannedTask → σ → Course σ (List TaskOutcome)
  | [], w => .ended [] w
  | task :: rest, w =>
    (runPlanned runTask task w).bind fun outcome w =>
      if outcome.exitCode ≠ 0 then .ended [outcome] w
      else (run runTask rest w).map (outcome :: ·)

end Session

end Stevedore
