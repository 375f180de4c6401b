import Stevedore.Engine.Calls
import Stevedore.Json.Reader
import Stevedore.Json.Record

/-!
What the client prints about containers: the document of an inspection, and the lines of the event
stream.
-/

namespace Stevedore.Docker

open Json (Value)

/-! ## Inspections -/

/-- The command of a health check that says there is none. -/
def noHealthCheck : String := "NONE"

/-- Whether a container's configuration has a health check. -/
def hasHealthCheck? (config : Value) : Option Bool := do
  let [check] ← config.record? ["Healthcheck"] | none
  let test? (v : Value) : Option (List String) := do
    let [test] ← v.record? ["Test"] | none
    Value.fieldOr (Value.list? Value.string?) [] test
  let test ← Value.fieldOr (Value.nullable? test?) none check
  return test.any fun command => !command.isEmpty && command.head? ≠ some noHealthCheck

/-- One run of a health check. -/
def healthCheck? (v : Value) : Option HealthCheck := do
  let [exitCode, output] ← v.record? ["ExitCode", "Output"] | none
  return ⟨← (← exitCode).integer?, ← Value.fieldOr Value.string? "" output⟩

/-- The runs of the health check in a container's state. -/
def healthLog? (state : Value) : Option (List HealthCheck) := do
  let [health] ← state.record? ["Health"] | none
  let log? (v : Value) : Option (List HealthCheck) := do
    let [log] ← v.record? ["Log"] | none
    Value.fieldOr (Value.list? healthCheck?) [] log
  return (← Value.fieldOr (Value.nullable? log?) none health).getD []

/-- What the document says about one container. -/
def inspectionEntry? (v : Value) : Option Inspection := do
  let [config, state] ← v.record? ["Config", "State"] | none
  return ⟨← Value.fieldOr hasHealthCheck? false config, ← Value.fieldOr healthLog? [] state⟩

/-- What an inspection of one container says. The document is an array, and all of it has to be
right. -/
def inspection (document : String) : Except EngineError Inspection :=
  match (Json.document? document).bind (Value.list? inspectionEntry?) with
  | none => .error (.inspectFailed "Could not parse container inspection output")
  | some [] => .error (.inspectFailed "Container inspection returned no results.")
  | some (entry :: _) => .ok entry

/-! ## Events -/

/-- The event that a line of the event stream reports, if it is one that is waited for. -/
def healthEvent? (line : String) : Option HealthEvent := do
  let [action] ← (← Json.document? line).record? ["Action"] | none
  match ← Value.fieldOr Value.string? "" action with
  | "die" => some .died
  | "health_status: healthy" => some .healthy
  | "health_status: unhealthy" => some .unhealthy
  | _ => none

end Stevedore.Docker
