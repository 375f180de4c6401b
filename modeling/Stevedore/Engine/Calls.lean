import Stevedore.Engine.Objects

/-!
What an engine can be asked, what it answers and how it can fail. A call says what is wanted and
`EngineCall.Answer` what comes back, so that a reply always fits its call.
-/

namespace Stevedore

/-- A request to the engine. -/
inductive EngineCall where
  | buildImage (request : BuildRequest)
  /-- Without force an image that is there already is taken as it is. -/
  | pullImage (reference : String) (force : Bool)
  | createNetwork (name driver : String)
  | deleteNetwork (network : Network)
  | createContainer (request : CreateRequest)
  | startContainer (container : Handle)
  | stopContainer (container : Handle)
  | removeContainer (container : Handle)
  /-- Shows what the container prints, until it exits. -/
  | waitForExit (container : Handle)
  | exec (request : ExecRequest)
  | inspect (container : Handle)
  /-- Waits until one of these things happens to the container. -/
  | waitForEvent (container : Handle) (kinds : List HealthEvent)
deriving DecidableEq, Inhabited

namespace EngineCall

/-- What comes back from a call that succeeds. -/
def Answer : EngineCall → Type
  | buildImage _ | pullImage .. => Image
  | createNetwork .. => Network
  | createContainer _ => Handle
  | deleteNetwork _ | startContainer _ | stopContainer _ | removeContainer _ => Unit
  | waitForExit _ => Int
  | exec _ => ExecResult
  | inspect _ => Inspection
  | waitForEvent .. => HealthEvent

/-- Whether the call ends early when the run is interrupted. The others are short. -/
def isInterruptible : EngineCall → Bool
  | buildImage _ | pullImage .. | waitForExit _ | exec _ | waitForEvent .. => true
  | _ => false

end EngineCall

/-- Why a call failed. -/
inductive EngineError where
  | buildFailed (message : String)
  | pullFailed (message : String)
  | networkCreationFailed (message : String)
  | networkDeletionFailed (message : String)
  | containerCreationFailed (message : String)
  | containerStartFailed (message : String)
  | containerStopFailed (message : String)
  | containerRemovalFailed (message : String)
  | execFailed (message : String)
  | inspectFailed (message : String)
  | eventStreamFailed (message : String)
  /-- The run was interrupted before the call came to its end. -/
  | cancelled
  /-- The engine could not be talked to. -/
  | io (cause : String)
deriving DecidableEq, Repr, Inhabited

namespace EngineError

/-- The failure in words. -/
def message : EngineError → String
  | buildFailed m | pullFailed m | networkCreationFailed m | networkDeletionFailed m
  | containerCreationFailed m | containerStartFailed m | containerStopFailed m
  | containerRemovalFailed m | execFailed m | inspectFailed m | eventStreamFailed m => m
  | cancelled => "The operation was cancelled."
  | io cause => s!"Could not communicate with the container engine: {cause}"

/-- The failure in words, followed by its cause where it has one of its own. -/
def fullMessage : EngineError → String
  | io cause => s!"{(io cause).message}: {cause}"
  | e => e.message

end EngineError

/-- The failure of a call that the engine refuses with a message. -/
def EngineCall.refusal : EngineCall → String → EngineError
  | buildImage _ => .buildFailed
  | pullImage .. => .pullFailed
  | createNetwork .. => .networkCreationFailed
  | deleteNetwork _ => .networkDeletionFailed
  | createContainer _ => .containerCreationFailed
  | startContainer _ => .containerStartFailed
  | stopContainer _ => .containerStopFailed
  | removeContainer _ => .containerRemovalFailed
  | waitForExit _ | exec _ => .execFailed
  | inspect _ => .inspectFailed
  | waitForEvent .. => .eventStreamFailed

/-- A reply to a call. -/
abbrev Reply (call : EngineCall) := Except EngineError call.Answer

/-- How far a long call has come. -/
inductive Progress where
  | build (progress : BuildProgress)
  | pull (message : String)
deriving DecidableEq, Repr

end Stevedore
