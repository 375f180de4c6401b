import Stevedore.Step

/-!
What happens during a run. The list of events in the order in which they were posted is all that
the planning of a run looks at.
-/

namespace Stevedore

/-- Something that has happened. -/
inductive Event where
  | networkCreated (network : Network)
  | networkCreationFailed (message : String)
  | networkDeleted (network : Network)
  | networkDeletionFailed (network : Network) (message : String)
  | cachesInitialised
  | cacheInitialisationFailed (message : String)
  | imageBuildProgress (container : String) (progress : BuildProgress)
  | imageBuilt (container : String) (image : Image)
  | imageBuildFailed (container : String) (message : String)
  | imagePullProgress (reference : String) (message : String)
  | imagePulled (reference : String) (image : Image)
  | imagePullFailed (reference : String) (message : String)
  | containerCreated (container : String) (handle : Handle)
  | containerCreationFailed (container : String) (message : String)
  | containerStarted (container : String)
  | containerHealthy (container : String)
  | containerNotHealthy (container : String) (message : String)
  | setupCommandStarting (container : String) (command : SetupCommand) (index : Nat)
  | setupCommandFailed (container : String) (command : SetupCommand) (exitCode : Int)
      (output : String)
  | setupCommandNotRun (container : String) (command : SetupCommand) (message : String)
  /-- Healthy, and all setup commands have succeeded. -/
  | containerReady (container : String)
  | containerExited (container : String) (exitCode : Int)
  | containerRunFailed (container : String) (message : String)
  | containerStopped (container : String)
  | containerStopFailed (container : String) (message : String)
  | containerRemoved (container : String)
  | containerRemovalFailed (container : String) (message : String)
  | fileCreated (container : String) (path : Path)
  | fileDeleted (path : Path)
  | fileDeletionFailed (path : Path) (message : String)
  | directoryCreated (container : String) (path : Path)
  | directoryDeleted (path : Path)
  | directoryDeletionFailed (path : Path) (message : String)
  | stepStarting (step : Step)
  | executionFailed (message : String)
  | interrupted
deriving DecidableEq, Repr, Inhabited

namespace Event

/-- Whether the event only tells how far something has come. -/
def isInformational : Event → Bool
  | stepStarting _ | imageBuildProgress .. | imagePullProgress .. | setupCommandStarting .. => true
  | _ => false

/-- Whether the event makes the task fail. -/
def isTaskFailure : Event → Bool
  | networkCreationFailed _ | cacheInitialisationFailed _ | imageBuildFailed .. | imagePullFailed ..
  | containerCreationFailed .. | containerNotHealthy .. | setupCommandFailed ..
  | setupCommandNotRun .. | containerRunFailed .. | executionFailed _ | interrupted => true
  | _ => false

/-- Whether the event is a failure to take something down. -/
def isCleanupFailure : Event → Bool
  | containerStopFailed .. | containerRemovalFailed .. | networkDeletionFailed ..
  | fileDeletionFailed .. | directoryDeletionFailed .. => true
  | _ => false

/-- The container that the event is about. -/
def container? : Event → Option String
  | imageBuildProgress c _ | imageBuilt c _ | imageBuildFailed c _ | containerCreated c _
  | containerCreationFailed c _ | containerStarted c | containerHealthy c | containerNotHealthy c _
  | setupCommandStarting c _ _ | setupCommandFailed c _ _ _ | setupCommandNotRun c _ _
  | containerReady c | containerExited c _ | containerRunFailed c _ | containerStopped c
  | containerStopFailed c _ | containerRemoved c | containerRemovalFailed c _ | fileCreated c _
  | directoryCreated c _ => some c
  | stepStarting step => step.container?
  | _ => none

/-- The line that tells a user about the event. Failures are told at the end of the run. -/
def line? : Event → Option String
  | networkCreated _ => some "Created task network."
  | cachesInitialised => some "Caches initialised."
  | imageBuilt c _ => some s!"Built image for {c}."
  | imagePulled reference _ => some s!"Pulled {reference}."
  | containerCreated c _ => some s!"Created {c}."
  | containerStarted c => some s!"Started {c}."
  | containerHealthy c => some s!"{c} is healthy."
  | setupCommandStarting c command _ =>
    some s!"Running setup command '{command.command}' in {c}..."
  | containerReady c => some s!"{c} is ready."
  | containerExited c exitCode => some s!"{c} exited with code {exitCode}."
  | containerStopped c => some s!"Stopped {c}."
  | containerRemoved c => some s!"Removed {c}."
  | networkDeleted _ => some "Deleted task network."
  | interrupted => some "Interrupt received, cleaning up..."
  | _ => none

end Event

end Stevedore
