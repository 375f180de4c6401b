import Stevedore.Command
import Stevedore.Program
import Stevedore.Work.Worker

/-!
Making images and containers. A container that runs as the current user needs files on the host
first; each is announced as soon as it exists, so that it is found again even if a later one fails.
-/

namespace Stevedore.Worker

variable (w : Worker)

/-! ## Images -/

/-- The step that builds the image of a container. -/
def buildImage (container : String) (tags : List String) : Program Unit :=
  match (w.graph.container? container).map Container.image with
  | some (.build directory dockerfile arguments) => do
    let request := ⟨directory, dockerfile, w.buildArguments arguments, tags⟩
    let announce : Progress → Option Event
      | .build progress => some (.imageBuildProgress container progress)
      | .pull _ => none
    match ← Program.call (.buildImage request) announce with
    | .ok image => Program.tell (.imageBuilt container image)
    | .error e => Program.tell (.imageBuildFailed container e.message)
  | _ =>
    Program.tell <|
      .imageBuildFailed container s!"Container '{container}' does not have a build directory."

/-- The step that pulls an image. -/
def pullImage (reference : String) : Program Unit := do
  let announce : Progress → Option Event
    | .pull message => some (.imagePullProgress reference message)
    | .build _ => none
  match ← Program.call (.pullImage reference false) announce with
  | .ok image => Program.tell (.imagePulled reference image)
  | .error e => Program.tell (.imagePullFailed reference e.message)

/-! ## Containers -/

/-- The command that a container is given: for the main container the task's command comes before
its own, and the arguments of the run come after it. -/
def containerCommand (c : Container) : Except String (List String) :=
  let isMain := w.graph.isMain c.name
  let configured := if isMain then w.graph.run.command <|> c.command else c.command
  let extra := if isMain then w.options.additionalArguments else []
  match configured with
  | none => .ok extra
  | some command =>
    match Command.words command with
    | .ok words => .ok (words ++ extra)
    | .error unfinished =>
      .error s!"Command for container '{c.name}' is invalid: {unfinished.message command}"

/-- Writes a temporary file of a container. -/
def writeTemporaryFile (container : String) (path : Path) (contents : String) : Attempt Unit := do
  Attempt.files s!"Could not write temporary file {path}" (.write path contents)
  Attempt.tell (.fileCreated container path)

/-- Makes the files by which a container knows the current user, with the mounts for them. -/
def userMounts (container home : String) : Attempt (List Mount) := do
  let temporary := w.names.temporary w.temporaryDirectory container
  writeTemporaryFile container (temporary "passwd") (w.user.passwdFile home)
  writeTemporaryFile container (temporary "group") w.user.groupFile
  Attempt.files "Could not create home directory for the current user"
    (.createDirectory (temporary "home"))
  Attempt.tell (.directoryCreated container (temporary "home"))
  return [
    ⟨.hostPath (temporary "passwd"), "/etc/passwd", some "ro"⟩,
    ⟨.hostPath (temporary "group"), "/etc/group", some "ro"⟩,
    ⟨.hostPath (temporary "home"), home, none⟩]

/-- Everything needed to create a container. -/
def creationRequest (c : Container) (image : Image) (network : Network) :
    Attempt CreateRequest := do
  let extra ←
    match c.userHome with
    | none => pure []
    | some home => w.userMounts c.name home
  let command ← ExceptT.mk (.done (w.containerCommand c))
  return {
    name := w.names.container c.name
    image
    network
    knownAs := some c.name
    command
    environment := w.environment c
    workingDirectory := c.workingDirectory
    mounts := c.mounts.map w.mount ++ extra
    user := w.containerUser c }

/-- The step that creates a container. -/
def createContainer (container : String) (image : Image) (network : Network) : Program Unit :=
  match w.graph.container? container with
  | none =>
    Program.tell <|
      .containerCreationFailed container s!"Container '{container}' is not part of this task."
  | some c => do
    match ← (w.creationRequest c image network).run with
    | .error message => Program.tell (.containerCreationFailed container message)
    | .ok request =>
      match ← Program.quietly (.createContainer request) with
      | .ok handle => Program.tell (.containerCreated container handle)
      | .error e => Program.tell (.containerCreationFailed container e.message)

end Stevedore.Worker
