import Stevedore.Engine.Calls

/-!
The arguments with which the client is started, one list for each thing that is asked of it.
-/

namespace Stevedore

/-- A mount as an argument. -/
def Mount.argument (m : Mount) : String :=
  let source :=
    match m.source with
    | .hostPath path => path.text
    | .volume name => name
  let options := (m.options.map (":" ++ ·)).getD ""
  source ++ ":" ++ m.target ++ options

/-- The name under which the client filters for the event. -/
def HealthEvent.filterName : HealthEvent → String
  | healthy | unhealthy => "health_status"
  | died => "die"

namespace Docker

/-- An option once for each of its values. -/
def repeated (option : String) (values : List String) : List String :=
  values.flatMap fun v => [option, v]

/-- Variables as values of an option. -/
def assignments (m : NameMap String) : List String := m.entries.map fun (k, v) => k ++ "=" ++ v

/-- Asks for the identifier of an image that is there. -/
def imageIdArguments (reference : String) : List String :=
  ["image", "inspect", "--format", "\x7b\x7b.Id\x7d\x7d", reference]

/-- Builds an image. -/
def buildArguments (r : BuildRequest) : List String :=
  ["build", "--file", (r.directory.join ⟨r.dockerfile⟩).text] ++ repeated "--tag" r.tags ++
    repeated "--build-arg" (assignments r.arguments) ++ [r.directory.text]

/-- Creates a container. -/
def createArguments (r : CreateRequest) : List String :=
  ["create", "--name", r.name, "--network", r.network.id] ++
    repeated "--network-alias" r.knownAs.toList ++ repeated "--env" (assignments r.environment) ++
    repeated "--workdir" r.workingDirectory.toList ++
    repeated "--volume" (r.mounts.map (·.argument)) ++ repeated "--user" r.user.toList ++
    r.image.id :: r.command

/-- Runs a command in a container. -/
def execArguments (r : ExecRequest) : List String :=
  ["exec"] ++ repeated "--env" (assignments r.environment) ++
    repeated "--workdir" r.workingDirectory.toList ++ repeated "--user" r.user.toList ++
    r.container.id :: r.command

/-- Asks when a container was created. -/
def createdArguments (h : Handle) : List String :=
  ["inspect", "--format", "\x7b\x7b.Created\x7d\x7d", h.id]

/-- Lists what has happened to a container since `created`, and goes on listing. -/
def eventArguments (h : Handle) (created : String) (kinds : List HealthEvent) : List String :=
  ["events", "--format", "\x7b\x7bjson .\x7d\x7d", "--since", created] ++
    repeated "--filter" (("container=" ++ h.id) :: kinds.map ("event=" ++ ·.filterName))

end Docker

end Stevedore
