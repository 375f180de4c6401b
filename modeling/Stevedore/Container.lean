import Stevedore.Project.Settings
import Stevedore.SortedSet

/-!
Containers as they are created. Where the settings of a container name its parts, a `Container` has
them decided: the source of its image is one of two, host paths start from the project's directory,
and its dependencies are a set.
-/

namespace Stevedore

/-- Where the image of a container comes from. -/
inductive ImageSource where
  | build (directory : Path) (dockerfile : String) (arguments : NameMap String)
  | pull (reference : String)
deriving DecidableEq

/-- Something mounted into a container. -/
inductive VolumeMount where
  | host (source : Path) (target : String) (options : Option String)
  | cache (name : String) (target : String)
deriving DecidableEq, Repr

/-- A container of a project. -/
structure Container where
  name : String
  image : ImageSource
  command : Option String
  environment : NameMap String
  workingDirectory : Option String
  /-- The containers that have to be ready before this one is created. -/
  dependencies : NameSet
  mounts : List VolumeMount
  setupCommands : List SetupCommand
  /-- The home directory of a container that runs as the current user. -/
  userHome : Option String
deriving DecidableEq

namespace Container

/-- Whether the container runs as the user who started the program. -/
def runsAsCurrentUser (c : Container) : Bool := c.userHome.isSome

/-- The caches that the container mounts, each with its place in the container. -/
def cacheMounts (c : Container) : List (String × String) :=
  c.mounts.filterMap fun
    | .cache name target => some (name, target)
    | .host .. => none

end Container

/-- The image of the container `name`: a build directory is built, and a container that names
neither a directory nor an image goes by its own name. -/
def ContainerSettings.imageSource (base : Path) (name : String) (c : ContainerSettings) :
    ImageSource :=
  match c.buildDirectory with
  | some directory => .build (base.join directory) c.dockerfile c.buildArgs
  | none => .pull (c.image.getD name)

/-- A volume with its host path starting from `base`. -/
def VolumeSettings.mount (base : Path) : VolumeSettings → VolumeMount
  | host source target options => .host (base.join source) target options
  | cache name target => .cache name target

/-- The container `name` with these settings, its host paths starting from `base`. -/
def Container.ofSettings (base : Path) (name : String) (c : ContainerSettings) : Container where
  name
  image := c.imageSource base name
  command := c.command
  environment := c.environment
  workingDirectory := c.workingDirectory
  dependencies := .ofList c.dependencies
  mounts := c.volumes.map (·.mount base)
  setupCommands := c.setupCommands
  userHome := if c.runAsCurrentUser.enabled then c.runAsCurrentUser.homeDirectory else none

end Stevedore
