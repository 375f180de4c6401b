import Stevedore.Container
import Stevedore.Event

/-!
What a list of events adds up to: what exists, how far each container has come, what was started
and what went wrong.
-/

namespace Stevedore

/-- The state of a run, as its events tell it. -/
structure Summary where
  network : Option Network := none
  networkDeleted : Bool := false
  cachesInitialised : Bool := false
  /-- The images built, by container. -/
  built : NameMap Image := ∅
  /-- The images pulled, by reference. -/
  pulled : NameMap Image := ∅
  created : NameMap Handle := ∅
  started : NameSet := ∅
  healthy : NameSet := ∅
  ready : NameSet := ∅
  exited : NameMap Int := ∅
  stopped : NameSet := ∅
  removed : NameSet := ∅
  files : PathSet := ∅
  deletedFiles : PathSet := ∅
  directories : PathSet := ∅
  deletedDirectories : PathSet := ∅
  /-- The steps that were started, each once. -/
  dispatched : List Step := []
  firstFailure : Option Event := none
  interrupted : Bool := false
  cleanupFailures : List Event := []

namespace Summary

/-- Whether a step that is the same work has been started. -/
def wasDispatched (s : Summary) (step : Step) : Bool := s.dispatched.any step.same

/-- Takes in the failures. -/
def noteFailure (s : Summary) (e : Event) : Summary :=
  { s with
    firstFailure := s.firstFailure <|> if e.isTaskFailure then some e else none
    cleanupFailures := s.cleanupFailures ++ if e.isCleanupFailure then [e] else [] }

/-- Takes in everything that is not a failure. -/
def noteState (s : Summary) : Event → Summary
  | .networkCreated network => { s with network := some network }
  | .networkDeleted _ => { s with networkDeleted := true }
  | .cachesInitialised => { s with cachesInitialised := true }
  | .imageBuilt c image => { s with built := s.built.insert c image }
  | .imagePulled reference image => { s with pulled := s.pulled.insert reference image }
  | .containerCreated c handle => { s with created := s.created.insert c handle }
  | .containerStarted c => { s with started := s.started.insert c }
  | .containerHealthy c => { s with healthy := s.healthy.insert c }
  | .containerReady c => { s with ready := s.ready.insert c }
  | .containerExited c exitCode => { s with exited := s.exited.insert c exitCode }
  | .containerStopped c => { s with stopped := s.stopped.insert c }
  | .containerRemoved c => { s with removed := s.removed.insert c }
  | .fileCreated _ path => { s with files := s.files.add path }
  | .fileDeleted path => { s with deletedFiles := s.deletedFiles.add path }
  | .directoryCreated _ path => { s with directories := s.directories.add path }
  | .directoryDeleted path => { s with deletedDirectories := s.deletedDirectories.add path }
  | .stepStarting step =>
    if s.wasDispatched step then s else { s with dispatched := s.dispatched ++ [step] }
  | .interrupted => { s with interrupted := true }
  | _ => s

/-- Takes in one event. -/
def note (s : Summary) (e : Event) : Summary := (s.noteFailure e).noteState e

/-- What the events add up to. -/
def ofEvents (events : List Event) : Summary := events.foldl note {}

/-- Whether the task has failed. -/
def hasFailed (s : Summary) : Bool := s.firstFailure.isSome

/-- The image that a container is created from, once there is one. -/
def image? (s : Summary) (c : Container) : Option Image :=
  match c.image with
  | .build .. => s.built.get? c.name
  | .pull reference => s.pulled.get? reference

/-- Whether a container was started and has neither exited nor been stopped. -/
def isRunning (s : Summary) (name : String) : Bool :=
  s.started.contains name && !s.exited.contains name && !s.stopped.contains name

/-- The containers that are running. -/
def running (s : Summary) : NameSet := s.started.filter s.isRunning

/-- The containers that were created and not removed. -/
def outstandingContainers (s : Summary) : NameMap Handle :=
  s.created.filter fun name _ => !s.removed.contains name

/-- The temporary files that were created and not deleted. -/
def outstandingFiles (s : Summary) : List Path := s.files.without s.deletedFiles

/-- The temporary directories that were created and not deleted. -/
def outstandingDirectories (s : Summary) : List Path :=
  s.directories.without s.deletedDirectories

/-- The network, if it was created and not deleted. -/
def outstandingNetwork? (s : Summary) : Option Network :=
  if s.networkDeleted then none else s.network

end Summary

end Stevedore
