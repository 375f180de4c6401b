import Stevedore.Path
import Stevedore.Project.Settings

/-!
What is exchanged with a container engine: the things that exist in it and the requests that make
them.
-/

namespace Stevedore

/-- An image, by its identifier. -/
structure Image where
  id : String
deriving DecidableEq, Repr, Inhabited

/-- A network, by its identifier. -/
structure Network where
  id : String
deriving DecidableEq, Repr, Inhabited

/-- A container that exists in the engine. -/
structure Handle where
  id : String
  /-- The engine's name for it. -/
  name : String
deriving DecidableEq, Repr, Inhabited

instance : ToString Handle := ⟨fun h => h.name ++ " (" ++ h.id ++ ")"⟩

/-- What to build an image from, and the tags to give it. -/
structure BuildRequest where
  directory : Path
  dockerfile : String
  arguments : NameMap String
  tags : List String
deriving DecidableEq

/-- Where something mounted comes from. -/
inductive MountSource where
  | hostPath (path : Path)
  | volume (name : String)
deriving DecidableEq, Repr

/-- Something mounted into a container at `target`. -/
structure Mount where
  source : MountSource
  target : String
  options : Option String
deriving DecidableEq, Repr

/-- Everything needed to create a container. -/
structure CreateRequest where
  name : String
  image : Image
  network : Network
  /-- The name under which other containers of the network reach this one. -/
  knownAs : Option String
  /-- The command and its arguments; none for what the image says. -/
  command : List String
  environment : NameMap String
  workingDirectory : Option String
  mounts : List Mount
  user : Option String
deriving DecidableEq

/-- A command to run in a container that runs already. -/
structure ExecRequest where
  container : Handle
  command : List String
  environment : NameMap String
  workingDirectory : Option String
  user : Option String
deriving DecidableEq

/-- How a command in a container ended. -/
structure ExecResult where
  exitCode : Int
  output : String
deriving DecidableEq, Repr, Inhabited

/-- One run of a container's health check. -/
structure HealthCheck where
  exitCode : Int
  output : String
deriving DecidableEq, Repr, Inhabited

/-- What is known about the health of a container. -/
structure Inspection where
  hasHealthCheck : Bool := false
  /-- The runs of the health check, oldest first. -/
  healthLog : List HealthCheck := []
deriving DecidableEq, Repr, Inhabited

/-- What can happen to a container that is being waited for. -/
inductive HealthEvent where
  | healthy
  | unhealthy
  | died
deriving DecidableEq, Repr, Inhabited

/-- How far the build of an image has come. -/
structure BuildProgress where
  step : Nat
  totalSteps : Nat
  message : String
deriving DecidableEq, Repr, Inhabited

end Stevedore
