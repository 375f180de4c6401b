import Stevedore.Engine.Objects

/-!
The steps that a run is made of. A step is data: what has been started is recognised again by
comparing steps (`Step.same`).
-/

namespace Stevedore

/-- One piece of work. -/
inductive Step where
  | createNetwork
  | initialiseCaches
  | buildImage (container : String) (tags : List String)
  | pullImage (reference : String)
  | createContainer (container : String) (image : Image) (network : Network)
  | startContainer (container : String) (handle : Handle)
  | awaitHealth (container : String) (handle : Handle)
  | runSetupCommands (container : String) (handle : Handle)
  /-- Waits for the main container to exit. -/
  | runContainer (container : String) (handle : Handle)
  | stopContainer (container : String) (handle : Handle)
  | removeContainer (container : String) (handle : Handle)
  | deleteFile (path : Path)
  | deleteDirectory (path : Path)
  | deleteNetwork (network : Network)
deriving DecidableEq, Repr, Inhabited

namespace Step

/-- The container that the step acts on. -/
def container? : Step → Option String
  | buildImage c _ | createContainer c _ _ | startContainer c _ | awaitHealth c _
  | runSetupCommands c _ | runContainer c _ | stopContainer c _ | removeContainer c _ => some c
  | createNetwork | initialiseCaches | pullImage _ | deleteFile _ | deleteDirectory _
  | deleteNetwork _ => none

/-- The step in words. -/
def text : Step → String
  | createNetwork => "create task network"
  | initialiseCaches => "initialise caches"
  | buildImage c _ => s!"build image for '{c}'"
  | pullImage reference => s!"pull image '{reference}'"
  | createContainer c _ _ => s!"create '{c}'"
  | startContainer c _ => s!"start '{c}'"
  | awaitHealth c _ => s!"wait for '{c}' to become healthy"
  | runSetupCommands c _ => s!"run setup commands in '{c}'"
  | runContainer c _ => s!"run '{c}'"
  | stopContainer c _ => s!"stop '{c}'"
  | removeContainer c _ => s!"remove '{c}'"
  | deleteFile path => s!"delete temporary file {path}"
  | deleteDirectory path => s!"delete temporary directory {path}"
  | deleteNetwork network => s!"delete task network {network.id}"

/-- Whether two steps are the same work. Two spellings of one path make no difference. -/
def same : Step → Step → Bool
  | deleteFile p, deleteFile q => p.same q
  | deleteDirectory p, deleteDirectory q => p.same q
  | s, t => s = t

theorem same_self (s : Step) : s.same s = true := by
  cases s <;> simp [same, Path.same]

end Step

end Stevedore
