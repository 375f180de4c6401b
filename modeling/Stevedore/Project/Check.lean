import Stevedore.Project.Settings
import Stevedore.Project.Names

/-!
Which settings make a project. `problems` lists everything that is wrong with the settings, in the
order in which it is reported: the project's name, then the containers by name. A `Project` is a
set of settings without problems, together with the directory that its relative paths start from.
-/

namespace Stevedore

/-- What can be wrong with the settings of a project. -/
inductive ConfigProblem where
  | projectNameBlank
  | projectNameInvalid (name : String)
  | noContainers
  | containerNameInvalid (name : String)
  | twoImageSources (container : String)
  | noImageSource (container : String)
  | setupCommandBlank (container : String) (index : Nat)
  | homeDirectoryMissing (container : String)
  | homeDirectoryRelative (container : String) (home : String)
  | cacheNameBlank (container : String)
  | cacheNameInvalid (container : String) (cache : String)
  | mountRelative (container : String) (target : String)
deriving DecidableEq, Repr

namespace ConfigProblem

/-- The rule for names that become part of image tags. -/
def nameRule : String :=
  "must contain only lowercase letters, digits, dashes (-), single periods (.) or one or two " ++
  "underscores (_), and must not start or end with a dash, period or underscore"

/-- The problem in words. -/
def message : ConfigProblem → String
  | projectNameBlank => "project_name must not be empty"
  | projectNameInvalid name =>
    s!"invalid project_name '{name}': it is used in image tags, so it {nameRule}"
  | noContainers => "config must contain at least one [containers.<name>] section"
  | containerNameInvalid name =>
    s!"invalid container name '{name}': container names are used in image tags, so they {nameRule}"
  | twoImageSources c =>
    s!"container '{c}' has both `image` and `build_directory`; only one may be given"
  | noImageSource c => s!"container '{c}' needs either `image` or `build_directory`"
  | setupCommandBlank c index => s!"container '{c}' has an empty setup command at index {index}"
  | homeDirectoryMissing c =>
    s!"container '{c}' has run_as_current_user enabled but no home_directory"
  | homeDirectoryRelative c home =>
    s!"container '{c}' has an invalid home directory configured: '{home}' is not an absolute path"
  | cacheNameBlank c => s!"container '{c}' has a cache mount with an empty name"
  | cacheNameInvalid c cache =>
    s!"container '{c}' has an invalid cache name '{cache}': cache names must start with a " ++
    "letter or digit and contain only letters, digits, '_', '.' and '-'"
  | mountRelative c target =>
    s!"container '{c}' has an invalid mount: '{target}' is not an absolute path"

end ConfigProblem

/-- Whether a path inside a container is absolute. -/
def isAbsoluteTarget (target : String) : Bool := target.toList.head? = some '/'

namespace ContainerSettings

variable (name : String)

/-- An image is either pulled or built. -/
def imageProblems (c : ContainerSettings) : List ConfigProblem :=
  match c.image, c.buildDirectory with
  | some _, some _ => [.twoImageSources name]
  | none, none => [.noImageSource name]
  | _, _ => []

/-- A setup command says something. -/
def setupProblems (c : ContainerSettings) : List ConfigProblem :=
  c.setupCommands.zipIdx.filterMap fun (s, index) =>
    if Text.isBlankText s.command then some (.setupCommandBlank name index) else none

/-- A container that runs as the current user has an absolute home directory. -/
def userProblems (c : ContainerSettings) : List ConfigProblem :=
  if c.runAsCurrentUser.enabled then
    match c.runAsCurrentUser.homeDirectory with
    | none => [.homeDirectoryMissing name]
    | some home => if isAbsoluteTarget home then [] else [.homeDirectoryRelative name home]
  else []

end ContainerSettings

namespace VolumeSettings

/-- Where the volume is mounted. -/
def target : VolumeSettings → String
  | host _ target _ => target
  | cache _ target => target

/-- A cache has a name fit for a volume, and every volume an absolute target. -/
def problems (name : String) (v : VolumeSettings) : List ConfigProblem :=
  (match v with
    | host .. => []
    | cache cacheName _ =>
      if Text.isBlankText cacheName then [.cacheNameBlank name]
      else if isVolumeName cacheName then [] else [.cacheNameInvalid name cacheName]) ++
  if isAbsoluteTarget v.target then [] else [.mountRelative name v.target]

end VolumeSettings

/-- Everything wrong with one container. -/
def ContainerSettings.problems (name : String) (c : ContainerSettings) : List ConfigProblem :=
  (if isReferenceName name then [] else [.containerNameInvalid name]) ++
  c.imageProblems name ++ c.setupProblems name ++ c.userProblems name ++
  c.volumes.flatMap (·.problems name)

namespace ProjectSettings

/-- Everything wrong with the project's name. -/
def nameProblems (s : ProjectSettings) : List ConfigProblem :=
  if Text.isBlankText s.projectName then [.projectNameBlank]
  else if isReferenceName s.projectName then [] else [.projectNameInvalid s.projectName]

/-- Everything wrong with the settings, in the order of reporting. -/
def problems (s : ProjectSettings) : List ConfigProblem :=
  s.nameProblems ++
  (if s.containers.isEmpty then [.noContainers] else []) ++
  s.containers.entries.flatMap fun e => e.2.problems e.1

end ProjectSettings

/-- Settings without problems, and the directory that relative paths start from. -/
structure Project where
  settings : ProjectSettings
  baseDirectory : Path := ⟨"."⟩
  valid : settings.problems = []
deriving DecidableEq

namespace Project

/-- The project with these settings, or the first problem. -/
def ofSettings (settings : ProjectSettings) : Except ConfigProblem Project :=
  match h : settings.problems with
  | [] => .ok { settings, valid := h }
  | p :: _ => .error p

/-- The same project with its relative paths starting from `directory`. -/
def inDirectory (p : Project) (directory : Path) : Project := { p with baseDirectory := directory }

/-- The project's name. -/
def name (p : Project) : String := p.settings.projectName

/-- The settings of a container. -/
def container? (p : Project) (name : String) : Option ContainerSettings :=
  p.settings.containers.get? name

/-- The settings of a task. -/
def task? (p : Project) (name : String) : Option TaskSettings := p.settings.tasks.get? name

end Project

end Stevedore
