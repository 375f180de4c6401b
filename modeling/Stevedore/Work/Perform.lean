import Stevedore.Work.CacheOwner
import Stevedore.Work.Creation
import Stevedore.Work.Readiness

/-!
Every step as a program. Each posts one event that says how it ended, and before that only what it
has made and how far it has come.
-/

namespace Stevedore.Worker

variable (w : Worker)

/-- A call whose end is told by one of two events. -/
def told (call : EngineCall) (success : call.Answer → Event) (failure : String → Event) :
    Program Unit :=
  .ask call (fun _ => none) fun
    | .ok answer => .tell (success answer)
    | .error e => .tell (failure e.message)

/-- A change of a file whose end is told by one of two events. -/
def toldChange (request : FileChange) (success : Event) (failure : String → Event) :
    Program Unit :=
  .change request fun
    | .ok () => .tell success
    | .error e => .tell (failure e.message)

/-- The program that carries a step out. -/
def perform : Step → Program Unit
  | .createNetwork =>
    told (.createNetwork w.names.network "bridge") .networkCreated .networkCreationFailed
  | .initialiseCaches => w.initialiseCaches
  | .buildImage c tags => w.buildImage c tags
  | .pullImage reference => pullImage reference
  | .createContainer c image network => w.createContainer c image network
  | .startContainer c handle =>
    told (.startContainer handle) (fun _ => .containerStarted c) (.containerRunFailed c)
  | .awaitHealth c handle => awaitHealth c handle
  | .runSetupCommands c handle => w.runSetupCommands c handle
  | .runContainer c handle =>
    told (.waitForExit handle) (.containerExited c) (.containerRunFailed c)
  | .stopContainer c handle =>
    told (.stopContainer handle) (fun _ => .containerStopped c) (.containerStopFailed c)
  | .removeContainer c handle =>
    told (.removeContainer handle) (fun _ => .containerRemoved c) (.containerRemovalFailed c)
  | .deleteFile path =>
    toldChange (.removeFile path) (.fileDeleted path) (.fileDeletionFailed path)
  | .deleteDirectory path =>
    toldChange (.removeDirectory path) (.directoryDeleted path) (.directoryDeletionFailed path)
  | .deleteNetwork network =>
    told (.deleteNetwork network) (fun _ => .networkDeleted network)
      (.networkDeletionFailed network)

end Stevedore.Worker
