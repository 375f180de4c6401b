import Stevedore.Files.Injected
import Stevedore.Surroundings

/-!
An engine that does nothing and succeeds, except where it has been told to fail or to wait. It
goes by the names that containers have in the project.
-/

namespace Stevedore.Rehearsal

/-- What the engine has been told. -/
structure StandInOrders where
  failingBuilds : List String := []
  failingPulls : List String := []
  failNetworkCreation : Bool := false
  failNetworkDeletion : Bool := false
  failingCreations : List String := []
  failingStarts : List String := []
  failingStops : List String := []
  failingRemovals : List String := []
  /-- How commands in a container end, by container and command. -/
  execResults : List ((String × String) × ExecResult) := []
  /-- The containers that have a health check, and how it goes. -/
  health : NameMap (HealthEvent × List HealthCheck) := ∅
  exitCodes : NameMap Int := ∅
  /-- The containers that run until they are interrupted. -/
  hanging : List String := []
  /-- The tags whose build goes on until it is interrupted. -/
  hangingBuilds : List String := []

/-- The engine with what it has been asked. -/
structure StandIn where
  orders : StandInOrders := {}
  files : InjectedFiles := .fresh
  isCancelled : Bool := false
  calls : List EngineCall := []

/-- The name of the container that a handle belongs to. -/
def nameOf (h : Handle) : String :=
  let id := h.id.toList
  if "-id".toList.isSuffixOf id then String.ofList (id.take (id.length - 3)) else h.id

namespace StandIn

/-- Succeeds, or fails with a message. -/
def settle (call : EngineCall) (fails : Bool) (message : String) (answer : call.Answer) :
    Response call.Answer :=
  .reply (if fails then .error (call.refusal message) else .ok answer)

/-- How the engine takes a call. -/
def response (o : StandInOrders) : (call : EngineCall) → Response call.Answer
  | .buildImage request =>
    let tag := request.tags.headD ""
    if tag ∈ o.hangingBuilds && tag ∉ o.failingBuilds then .untilCancelled
    else
      settle (.buildImage request) (tag ∈ o.failingBuilds) s!"build of {tag} failed"
        (Image.mk s!"sha256:{tag}")
  | .pullImage reference force =>
    settle (.pullImage reference force) (reference ∈ o.failingPulls) s!"pull of {reference} failed"
      (Image.mk s!"sha256:{reference}")
  | .createNetwork name driver =>
    settle (.createNetwork name driver) o.failNetworkCreation "no more networks"
      (Network.mk s!"{name}-id")
  | .deleteNetwork network =>
    settle (.deleteNetwork network) o.failNetworkDeletion "network is in use" ()
  | .createContainer request =>
    let name := request.knownAs.getD request.name
    settle (.createContainer request) (name ∈ o.failingCreations) s!"could not create {name}"
      (Handle.mk s!"{name}-id" request.name)
  | .startContainer h =>
    settle (.startContainer h) (nameOf h ∈ o.failingStarts) s!"could not start {nameOf h}" ()
  | .stopContainer h =>
    settle (.stopContainer h) (nameOf h ∈ o.failingStops) s!"could not stop {nameOf h}" ()
  | .removeContainer h =>
    settle (.removeContainer h) (nameOf h ∈ o.failingRemovals) s!"could not remove {nameOf h}" ()
  | .waitForExit h =>
    if nameOf h ∈ o.hanging then .untilCancelled
    else .reply (.ok ((o.exitCodes.get? (nameOf h)).getD 0))
  | .exec request =>
    let key := (nameOf request.container, " ".intercalate request.command)
    .reply (.ok ((o.execResults.reverse.lookup key).getD ⟨0, ""⟩))
  | .inspect h =>
    .reply (.ok (match o.health.get? (nameOf h) with
      | some (_, log) => Inspection.mk true log
      | none => {}))
  | .waitForEvent h _ => .reply (.ok (((o.health.get? (nameOf h)).map (·.1)).getD .healthy))

/-- What is reported while a call succeeds. -/
def progress (call : EngineCall) : Response call.Answer → List Progress
  | .reply (.ok _) =>
    match call with
    | .buildImage _ => [.build ⟨1, 1, "FROM scratch"⟩]
    | .pullImage .. => [.pull "Pull complete"]
    | _ => []
  | _ => []

/-- Takes a call. -/
def ask (call : EngineCall) (s : StandIn) : (List Progress × Response call.Answer) × StandIn :=
  let response := response s.orders call
  ((progress call response, response), { s with calls := s.calls ++ [call] })

/-- Makes a change. -/
def change (request : FileChange) (s : StandIn) : Except FileError Unit × StandIn :=
  let (result, files) := s.files.apply request
  (result, { s with files })

/-- Surroundings with this engine. When every step waits, the run is interrupted. -/
def surroundings : Surroundings StandIn where
  ask := fun _ => ask
  change := change
  isCancelled := (·.isCancelled)
  whenIdle := fun s => { s with isCancelled := true }

/-! ## What was asked -/

/-- The builds that were asked for. -/
def builds (s : StandIn) : List BuildRequest :=
  s.calls.filterMap fun
    | .buildImage request => some request
    | _ => none

/-- The commands that were run in containers. -/
def execs (s : StandIn) : List ExecRequest :=
  s.calls.filterMap fun
    | .exec request => some request
    | _ => none

/-- The latest request to create the container of a name. -/
def creation? (s : StandIn) (name : String) : Option CreateRequest :=
  s.calls.reverse.findSome? fun
    | .createContainer request =>
      if request.knownAs.getD request.name = name then some request else none
    | _ => none

end StandIn

end Stevedore.Rehearsal
