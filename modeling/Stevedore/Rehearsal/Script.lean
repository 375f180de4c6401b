import Stevedore.Files.Injected
import Stevedore.Surroundings

/-!
A scripted engine. For each kind of call about each thing the script holds a queue of replies; a
call takes the next one, and a call without one succeeds. What is asked and changed is written
down.
-/

namespace Stevedore.Rehearsal

/-- What the script says to one call. The fields act in the order in which they stand here. -/
structure ScriptedReply where
  /-- Interrupts the run. -/
  cancel : Bool := false
  /-- Breaks the step off. -/
  crash : Bool := false
  progress : List Progress := []
  /-- Waits until the run is interrupted, in calls that can be. -/
  hang : Bool := false
  cancelled : Bool := false
  /-- Fails because the engine cannot be talked to. -/
  io : Option String := none
  /-- Fails with a message. -/
  refusal : Option String := none
  /-- The identifier of what is made. -/
  id : Option String := none
  exitCode : Int := 0
  output : String := ""
  inspection : Inspection := {}
  event : HealthEvent := .healthy

/-- The name under which the script has its replies to a call. -/
def callKey : EngineCall → String
  | .buildImage request => "build:" ++ request.tags.headD ""
  | .pullImage reference _ => "pull:" ++ reference
  | .createNetwork .. => "create_network"
  | .deleteNetwork network => "delete_network:" ++ network.id
  | .createContainer request => "create:" ++ request.knownAs.getD request.name
  | .startContainer h => "start:" ++ h.id
  | .stopContainer h => "stop:" ++ h.id
  | .removeContainer h => "remove:" ++ h.id
  | .waitForExit h => "wait:" ++ h.id
  | .exec request => "exec:" ++ request.container.id
  | .inspect h => "inspect:" ++ h.id
  | .waitForEvent h _ => "event:" ++ h.id

namespace ScriptedReply

/-- The answer to a call that succeeds. -/
def answer (r : ScriptedReply) : (call : EngineCall) → call.Answer
  | .buildImage request => Image.mk (r.id.getD ("sha256:" ++ request.tags.headD ""))
  | .pullImage reference _ => Image.mk (r.id.getD ("sha256:" ++ reference))
  | .createNetwork name _ => Network.mk (r.id.getD (name ++ "-id"))
  | .createContainer request =>
    Handle.mk (r.id.getD (request.knownAs.getD request.name ++ "-id")) request.name
  | .deleteNetwork _ | .startContainer _ | .stopContainer _ | .removeContainer _ => ()
  | .waitForExit _ => r.exitCode
  | .exec _ => ExecResult.mk r.exitCode r.output
  | .inspect _ => r.inspection
  | .waitForEvent .. => r.event

/-- How the engine takes a call that has this reply. -/
def response (r : ScriptedReply) (call : EngineCall) : Response call.Answer :=
  if r.crash then .crash
  else if r.hang && call.isInterruptible then .untilCancelled
  else if r.cancelled then .reply (.error .cancelled)
  else
    match r.io, r.refusal with
    | some cause, _ => .reply (.error (.io cause))
    | none, some message => .reply (.error (call.refusal message))
    | none, none => .reply (.ok (r.answer call))

end ScriptedReply

/-- Something that was asked of the engine or changed on the host. -/
inductive Deed where
  | asked (call : EngineCall)
  | changed (request : FileChange)

/-- The state of a scripted engine and its host. -/
structure Script where
  replies : NameMap (List ScriptedReply) := ∅
  files : InjectedFiles := .fresh
  isCancelled : Bool := false
  /-- What has been done, in order. -/
  deeds : List Deed := []

namespace Script

/-- The next reply under a name. -/
def nextReply (s : Script) (key : String) : ScriptedReply × Script :=
  match s.replies.get? key with
  | some (r :: rest) => (r, { s with replies := s.replies.insert key rest })
  | _ => ({}, s)

/-- Takes a call. -/
def ask (call : EngineCall) (s : Script) : (List Progress × Response call.Answer) × Script :=
  let (r, s) := s.nextReply (callKey call)
  let s := { s with
    isCancelled := s.isCancelled || r.cancel
    deeds := s.deeds ++ [.asked call] }
  ((if r.crash then [] else r.progress, r.response call), s)

/-- Makes a change. -/
def change (request : FileChange) (s : Script) : Except FileError Unit × Script :=
  let (result, files) := s.files.apply request
  (result, { s with files, deeds := s.deeds ++ [.changed request] })

/-- Scripted surroundings. When every step waits, the run is interrupted. -/
def surroundings : Surroundings Script where
  ask := fun _ => ask
  change := change
  isCancelled := (·.isCancelled)
  whenIdle := fun s => { s with isCancelled := true }

end Script

end Stevedore.Rehearsal
