import Stevedore.Command
import Stevedore.Program
import Stevedore.Text.Blank
import Stevedore.Work.Worker

/-!
Waiting until a started container is of use: first until it is healthy, then for its setup
commands, one at a time.
-/

namespace Stevedore

/-- Why a container that reported itself unhealthy failed its last health check. -/
def Inspection.unhealthyMessage (i : Inspection) : String :=
  let reason :=
    match i.healthLog.getLast? with
    | none => "The container has no recorded health check results."
    | some last =>
      let output := Text.trim last.output
      if last.exitCode = 0 then
        "The most recent health check exited with code 0, which usually indicates that the " ++
          "container became healthy just after the timeout period expired."
      else if output = "" then
        s!"The last health check exited with code {last.exitCode} but did not produce any output."
      else s!"The last health check exited with code {last.exitCode} and output:\n{output}"
  unhealthyStart ++ " " ++ reason
where
  unhealthyStart : String :=
    "The configured health check did not indicate that the container was healthy within the " ++
      "timeout period."

namespace Worker

variable (w : Worker)

/-! ## Health -/

/-- Why a container did not become healthy, if it did not. One without a health check is healthy
as soon as it has started. -/
def healthProblem? (handle : Handle) : Program (Option String) := do
  match ← Program.quietly (.inspect handle) with
  | .error e => return some s!"Could not check the container's health: {e.message}"
  | .ok (inspection : Inspection) =>
    if !inspection.hasHealthCheck then return none
    match ← Program.quietly (.waitForEvent handle [.healthy, .unhealthy, .died]) with
    | .error e => return some s!"Waiting for the container to become healthy failed: {e.message}"
    | .ok .healthy => return none
    | .ok .died => return some "The container exited before becoming healthy."
    | .ok .unhealthy =>
      match ← Program.quietly (.inspect handle) with
      | .error e =>
        return some <| Inspection.unhealthyMessage.unhealthyStart ++
          s!" Could not retrieve the last health check result: {e.message}"
      | .ok (inspection : Inspection) => return some inspection.unhealthyMessage

/-- The step that waits until a container is healthy. -/
def awaitHealth (container : String) (handle : Handle) : Program Unit := do
  match ← healthProblem? handle with
  | none => Program.tell (.containerHealthy container)
  | some message => Program.tell (.containerNotHealthy container message)

/-! ## Setup commands -/

/-- The request that runs a setup command. -/
def setupRequest (c : Container) (handle : Handle) (setup : SetupCommand) (words : List String) :
    ExecRequest where
  container := handle
  command := words
  environment := w.environment c
  workingDirectory := setup.workingDirectory <|> c.workingDirectory
  user := w.containerUser c

/-- Runs setup commands, the first of which has the given index, up to the first that fails. -/
def runSetup (c : Container) (handle : Handle) : Nat → List SetupCommand → Program Unit
  | _, [] => Program.tell (.containerReady c.name)
  | index, setup :: rest => do
    Program.tell (.setupCommandStarting c.name setup index)
    match Command.words setup.command with
    | .error unfinished =>
      Program.tell (.setupCommandNotRun c.name setup (unfinished.message setup.command))
    | .ok words =>
      match ← Program.quietly (.exec (w.setupRequest c handle setup words)) with
      | .error e => Program.tell (.setupCommandNotRun c.name setup e.message)
      | .ok (result : ExecResult) =>
        if result.exitCode = 0 then runSetup c handle (index + 1) rest
        else Program.tell (.setupCommandFailed c.name setup result.exitCode result.output)

/-- The step that runs the setup commands of a container. -/
def runSetupCommands (container : String) (handle : Handle) : Program Unit :=
  match w.graph.container? container with
  | none => Program.tell (.containerReady container)
  | some c => w.runSetup c handle 0 c.setupCommands

end Worker

end Stevedore
