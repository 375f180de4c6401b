import Stevedore.SortedMap
import Stevedore.Path

/-!
The settings of a project as its file gives them: containers, the caches and directories mounted
into them, and the tasks that run in them. Nothing is checked here; `Stevedore.Project.Check` says
which settings make a project.
-/

namespace Stevedore

/-- Where the contents of caches are kept. -/
inductive CacheKind where
  /-- In a named volume of the engine. -/
  | volume
  /-- In a directory beside the project file. -/
  | directory
deriving DecidableEq, Repr, Inhabited

/-- One entry of a container's list of volumes. -/
inductive VolumeSettings where
  /-- A path of the host. -/
  | host (source : Path) (target : String) (options : Option String)
  /-- A named cache that outlives the run. -/
  | cache (name : String) (target : String)
deriving DecidableEq, Repr

/-- A command run in a container before the container counts as ready. -/
structure SetupCommand where
  command : String
  workingDirectory : Option String
deriving DecidableEq, Repr, Inhabited

/-- Whether a container runs as the user who started the program, and with which home. -/
structure UserSettings where
  enabled : Bool := false
  homeDirectory : Option String := none
deriving DecidableEq, Repr, Inhabited

/-- The settings of one container. -/
structure ContainerSettings where
  image : Option String := none
  buildDirectory : Option Path := none
  dockerfile : String := "Dockerfile"
  buildArgs : NameMap String := ∅
  command : Option String := none
  environment : NameMap String := ∅
  workingDirectory : Option String := none
  dependencies : List String := []
  volumes : List VolumeSettings := []
  setupCommands : List SetupCommand := []
  runAsCurrentUser : UserSettings := {}
deriving DecidableEq, Inhabited

/-- What a task asks its main container to do. -/
structure RunSettings where
  container : String
  /-- Stands in place of the container's own command. -/
  command : Option String := none
  /-- Laid over the container's own environment. -/
  environment : NameMap String := ∅
deriving DecidableEq, Inhabited

/-- The settings of one task. -/
structure TaskSettings where
  description : Option String := none
  /-- A task without this only groups its prerequisites. -/
  run : Option RunSettings := none
  /-- Tasks to run before this one; a star stands for any characters. -/
  prerequisites : List String := []
  /-- Containers to start beside those that the main container depends on. -/
  dependencies : List String := []
deriving DecidableEq, Inhabited

/-- The settings of a whole project. -/
structure ProjectSettings where
  projectName : String
  cacheKind : CacheKind := .volume
  containers : NameMap ContainerSettings := ∅
  tasks : NameMap TaskSettings := ∅
deriving DecidableEq, Inhabited

end Stevedore
