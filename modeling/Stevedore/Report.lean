import Stevedore.Options
import Stevedore.Summary
import Stevedore.Text.Blank

/-!
How a run ended, and what the user is told about it: why it failed, and what is left to remove by
hand.
-/

namespace Stevedore

/-- How a task ended. -/
inductive TaskResult where
  | succeeded (exitCode : Int)
  | failed
  | cancelled
deriving DecidableEq, Repr, Inhabited

/-- The exit code that stands for the result. No container exits with a negative code. -/
def TaskResult.exitCode : TaskResult → Int
  | succeeded exitCode => exitCode
  | failed => -1
  | cancelled => -2

/-- Whether the task succeeded. -/
def TaskResult.isSuccess : TaskResult → Bool
  | succeeded _ => true
  | _ => false

/-- Why something is left to remove by hand, and the commands that do it. -/
inductive ManualCleanup where
  | notRequired
  | afterCleanupFailure (commands : List String)
  | afterTaskFailure (commands : List String)
  | afterTaskSuccess (commands : List String)
deriving DecidableEq, Repr, Inhabited

namespace ManualCleanup

/-- The commands to run. -/
def commands : ManualCleanup → List String
  | notRequired => []
  | afterCleanupFailure commands | afterTaskFailure commands | afterTaskSuccess commands => commands

/-- Whether something is left to do. -/
def isRequired : ManualCleanup → Bool
  | notRequired => false
  | _ => true

end ManualCleanup

/-! ## Failures in words -/

/-- A failure with its explanation. -/
def failureText (headline body : String) : String := s!"Error: {headline}.\n{body}"

/-- The advice to keep the containers next time, unless that was done. -/
def rerunHint (options : Options) : String :=
  match options.afterFailure with
  | .cleanup =>
    "\n\nYou can re-run the task with --no-cleanup-after-failure " ++
      "to leave the created containers running to diagnose the issue."
  | .keep => ""

/-- How a command ended that should have succeeded. -/
def exitText (exitCode : Int) (output : String) : String :=
  if Text.isBlankText output then
    s!"The command exited with code {exitCode} and did not produce any output."
  else s!"The command exited with code {exitCode} and output:\n" ++ Text.trimEnd output

/-- What the user is told about a failure. -/
def Event.failureMessage? (options : Options) : Event → Option String
  | networkCreationFailed message => some (failureText "Could not create network for task" message)
  | cacheInitialisationFailed message =>
    some (failureText "Could not initialise caches for task" message)
  | imageBuildFailed c message =>
    some (failureText s!"Could not build image for container '{c}'" message)
  | imagePullFailed reference message =>
    some (failureText s!"Could not pull image '{reference}'" message)
  | containerCreationFailed c message =>
    some (failureText s!"Could not create container '{c}'" message)
  | containerNotHealthy c message =>
    some (failureText s!"Container '{c}' did not become healthy" message ++ rerunHint options)
  | containerRunFailed c message => some (failureText s!"Could not run container '{c}'" message)
  | setupCommandNotRun c command message =>
    some (failureText s!"Could not run setup command '{command.command}' in container '{c}'" message
      ++ rerunHint options)
  | setupCommandFailed c command exitCode output =>
    some (failureText s!"Setup command '{command.command}' in container '{c}' failed"
      (exitText exitCode output) ++ rerunHint options)
  | executionFailed message =>
    some (failureText "An unexpected error occurred during execution" message)
  | interrupted => some "Task cancelled: Task execution was interrupted. Cleaning up..."
  | containerStopFailed c message => some (failureText s!"Could not stop container '{c}'" message)
  | containerRemovalFailed c message =>
    some (failureText s!"Could not remove container '{c}'" message)
  | networkDeletionFailed _ message =>
    some (failureText "Could not delete the task network" message)
  | fileDeletionFailed path message =>
    some (failureText s!"Could not delete temporary file '{path}'" message)
  | directoryDeletionFailed path message =>
    some (failureText s!"Could not delete temporary directory '{path}'" message)
  | _ => none

/-! ## What is left, in words -/

/-- How to look into a container that was kept. -/
def inspectionHint (s : Summary) (name : String) (handle : Handle) : String :=
  let command :=
    (if s.isRunning name then "" else s!"docker start {handle.name}; ") ++
      s!"docker exec -it {handle.name} <command>"
  s!"For container '{name}', view its output by running 'docker logs {handle.name}', or run a " ++
    s!"command in the container with '{command}'.\n"

/-- What is said about containers that were kept because of the option `option`. -/
def keptMessage (s : Summary) (option phrase : String) (commands : String) : String :=
  s!"As the task was run with {option}, the created containers will not be cleaned up.\n" ++
    String.join (s.created.entries.map fun (name, handle) => inspectionHint s name handle) ++
    s!"\n{phrase}, clean up all temporary resources created by dockhand by running:\n{commands}"

/-- What the user is told about what is left to remove by hand. -/
def ManualCleanup.message? (events : List Event) (m : ManualCleanup) : Option String :=
  if m.commands.isEmpty then none
  else
    let commands := "\n".intercalate m.commands
    match m with
    | notRequired => none
    | afterCleanupFailure _ =>
      let instruction :=
        if m.commands.length = 1 then
          "You may need to run the following command to clean up any remaining resources:"
        else
          "You may need to run some or all of the following commands to clean up any remaining " ++
            "resources:"
      some <|
        "Clean up has failed, and dockhand cannot guarantee that all temporary resources " ++
        s!"created have been completely cleaned up.\n{instruction}\n{commands}"
    | afterTaskFailure _ =>
      some <| keptMessage (.ofEvents events) "--no-cleanup-after-failure"
        "Once you have finished investigating the issue" commands
    | afterTaskSuccess _ =>
      some <| keptMessage (.ofEvents events) "--no-cleanup-after-success"
        "Once you have finished using the containers" commands

end Stevedore
