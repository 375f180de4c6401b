import Stevedore.Docker.Arguments
import Stevedore.Docker.BuildOutput
import Stevedore.Docker.Inspected
import Stevedore.Docker.Talk

/-!
How each call to the engine is put to its client. A call that is interrupted from the start still
starts the processes it needs, up to the first one that can be interrupted.
-/

namespace Stevedore.Docker.Client

variable {σ : Type} (client : Client σ)

/-- The identifier of an image, if it is there. -/
def image? (reference : String) : Talk σ (Option Image) := do
  match ← (client.query .inspectFailed (imageIdArguments reference)).attempt with
  | .ok id => return if id.isEmpty then none else some ⟨id⟩
  | .error _ => return none

/-- Builds an image, and looks it up under its first tag. -/
def build (cancelled : Bool) (r : BuildRequest) : Talk σ Image := do
  let (p, e) ← client.follow cancelled (fun line => (buildProgress? line).map .build)
    (buildArguments r)
  if !e.isSuccess then Talk.fail (.buildFailed (e.failure p.tail))
  else
    match r.tags with
    | [] =>
      Talk.fail <| .buildFailed
        "Image build request had no tags; cannot identify the built image."
    | tag :: _ =>
      match ← client.image? tag with
      | some image => return image
      | none => Talk.fail (.buildFailed s!"Built image '{tag}' could not be found afterwards.")

/-- Pulls an image and looks it up. -/
def fetch (cancelled : Bool) (reference : String) : Talk σ Image := do
  let (p, e) ← client.follow cancelled (some ∘ .pull) ["pull", reference]
  if !e.isSuccess then Talk.fail (.pullFailed (e.failure p.tail))
  else
    match ← client.image? reference with
    | some image => return image
    | none => Talk.fail (.pullFailed s!"Pulled image '{reference}' could not be found afterwards.")

/-- Pulls an image. Without force, one that is there already will do. -/
def pull (cancelled : Bool) (reference : String) (force : Bool) : Talk σ Image := do
  if force then client.fetch cancelled reference
  else
    match ← client.image? reference with
    | some image => return image
    | none => client.fetch cancelled reference

/-- The exit code that a text tells. -/
def exitCode (h : Handle) (text : String) : Except EngineError Int :=
  match Text.readInt64? (Text.trimChars text.toList) with
  | some n => .ok n
  | none => .error <| .execFailed
      s!"Could not determine the exit code of container {h}: unexpected output '{text}'."

/-- Shows the output of a container until it exits. -/
def awaitExit (cancelled : Bool) (h : Handle) : Talk σ Int := do
  let logs ← client.spawn ["logs", "--follow", h.id]
  fun w => (([], .reply (.ok ())), client.display logs w)
  let wait ← client.spawn ["wait", h.id]
  if cancelled then Talk.fail .cancelled
  else
    match wait.exit with
    | none => Talk.respond .untilCancelled
    | some e =>
      match checked .execFailed wait e with
      | .error e => Talk.fail e
      | .ok text =>
        if logs.exit.isNone then Talk.respond .never else Talk.respond (.reply (exitCode h text))

/-- Runs a command in a container. -/
def execute (cancelled : Bool) (r : ExecRequest) : Talk σ ExecResult := do
  let (p, e) ← client.follow cancelled (fun _ => none) (execArguments r)
  match e with
  | .code n => return ⟨n, String.join (p.allLines.map (· ++ "\n"))⟩
  | .killed =>
    Talk.fail (.execFailed s!"The command in container {r.container} was terminated by a signal.")

/-- The first event of these kinds in the lines of the event stream. -/
def firstEvent (kinds : List HealthEvent) (ended : Bool) :
    List (Option String) → Response HealthEvent
  | [] =>
    if ended then
      .reply (.error (.eventStreamFailed "The engine event stream ended unexpectedly."))
    else .untilCancelled
  | none :: _ => .reply (.error (.io "stream did not contain valid UTF-8"))
  | some line :: rest =>
    match healthEvent? line with
    | some kind => if kind ∈ kinds then .reply (.ok kind) else firstEvent kinds ended rest
    | none => firstEvent kinds ended rest

/-- Waits until one of these things has happened to a container, from its creation on. -/
def awaitEvent (cancelled : Bool) (h : Handle) (kinds : List HealthEvent) : Talk σ HealthEvent := do
  let created ← client.query .eventStreamFailed (createdArguments h)
  let p ← client.spawn (eventArguments h created kinds)
  if cancelled then Talk.fail .cancelled
  else Talk.respond (firstEvent kinds p.exit.isSome (p.lines? p.output))

/-- Asks for something that is done or not. -/
def order (refusal : String → EngineError) (arguments : List String) : Talk σ Unit := do
  let _ ← client.query refusal arguments
  return ()

/-- Puts a call to the client. -/
def talk (cancelled : Bool) : (call : EngineCall) → Talk σ call.Answer
  | .buildImage r => client.build cancelled r
  | .pullImage reference force => client.pull cancelled reference force
  | .createNetwork name driver => do
    let id ← client.query .networkCreationFailed ["network", "create", "--driver", driver, name]
    return Network.mk id
  | .deleteNetwork n => client.order .networkDeletionFailed ["network", "rm", n.id]
  | .createContainer r => do
    let id ← client.query .containerCreationFailed (createArguments r)
    return Handle.mk id r.name
  | .startContainer h => client.order .containerStartFailed ["start", h.id]
  | .stopContainer h => client.order .containerStopFailed ["stop", h.id]
  | .removeContainer h => client.order .containerRemovalFailed ["rm", "--force", "--volumes", h.id]
  | .waitForExit h => client.awaitExit cancelled h
  | .exec r => client.execute cancelled r
  | .inspect h => do
    let document ← client.query .inspectFailed ["inspect", "--type", "container", h.id]
    Talk.respond (.reply (inspection document))
  | .waitForEvent h kinds => client.awaitEvent cancelled h kinds

end Stevedore.Docker.Client
