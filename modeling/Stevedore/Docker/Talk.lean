import Stevedore.Docker.ClientRun
import Stevedore.Surroundings

/-!
Talking to the engine through its client. A client starts processes in a world whose state is a `σ`,
and a talk is what one call comes to: progress on the way, and a response.
-/

namespace Stevedore.Docker

/-- A client whose processes live in a world with states in `σ`. -/
structure Client (σ : Type) where
  /-- Starts a process, if there is a client to start. -/
  start : List String → σ → Option ClientRun × σ
  /-- Shows what a process prints. -/
  display : ClientRun → σ → σ

/-- A part of a call. -/
def Talk (σ α : Type) : Type := σ → (List Progress × Response α) × σ

namespace Talk

variable {σ α β : Type}

/-- Ends with a response. -/
def respond (r : Response α) : Talk σ α := fun w => (([], r), w)

/-- Fails. -/
def fail (e : EngineError) : Talk σ α := respond (.reply (.error e))

/-- One part after another, as long as each comes to an answer. -/
def bind (t : Talk σ α) (f : α → Talk σ β) : Talk σ β := fun w =>
  let ((said, response), w) := t w
  match response with
  | .reply (.ok a) =>
    let ((more, response), w) := f a w
    ((said ++ more, response), w)
  | .reply (.error e) => ((said, .reply (.error e)), w)
  | .untilCancelled => ((said, .untilCancelled), w)
  | .crash => ((said, .crash), w)
  | .never => ((said, .never), w)

instance : Monad (Talk σ) where
  pure a := respond (.reply (.ok a))
  bind := bind

/-- Says how far the call has come. -/
def say (progress : List Progress) : Talk σ Unit := fun w => ((progress, .reply (.ok ())), w)

/-- What a talk comes to when its failure is no reason to stop. -/
def attempt (t : Talk σ α) : Talk σ (Except EngineError α) := fun w =>
  let ((said, response), w) := t w
  match response with
  | .reply result => ((said, .reply (.ok result)), w)
  | .untilCancelled => ((said, .untilCancelled), w)
  | .crash => ((said, .crash), w)
  | .never => ((said, .never), w)

end Talk

namespace Client

variable {σ : Type} (client : Client σ)

/-- What the system says when there is no client. -/
def missing : String := "No such file or directory (os error 2)"

/-- The size in bytes from which on the system refuses an argument. -/
def argumentLimit : Nat := 131072

/-- What the system says to arguments that it cannot hand over. A zero byte would end an argument
early. -/
def refused? (arguments : List String) : Option String :=
  if arguments.any (·.toList.contains '\x00') then some "nul byte found in provided data"
  else if arguments.any (argumentLimit ≤ ·.utf8ByteSize) then
    some "Argument list too long (os error 7)"
  else none

/-- Starts a process, unless its arguments are refused. -/
def spawn (arguments : List String) : Talk σ ClientRun := fun w =>
  match refused? arguments with
  | some reason => (([], .reply (.error (.io reason))), w)
  | none =>
    let (process?, w) := client.start arguments w
    match process? with
    | some p => (([], .reply (.ok p)), w)
    | none => (([], .reply (.error (.io missing))), w)

/-- The output of a process that had to succeed. -/
def checked (refusal : String → EngineError) (p : ClientRun) (e : Exit) :
    Except EngineError String :=
  if e.isSuccess then .ok (ClientRun.message p.output)
  else .error (refusal (e.failure (ClientRun.message p.errors)))

/-- Starts a process and waits for its output. Nothing interrupts the wait. -/
def query (refusal : String → EngineError) (arguments : List String) : Talk σ String := do
  let p ← client.spawn arguments
  match p.exit with
  | none => Talk.respond .never
  | some e => Talk.respond (.reply (checked refusal p e))

/-- Starts a process whose lines tell how far it has come, and waits for its end or for the
interruption of the run. -/
def follow (cancelled : Bool) (progress? : String → Option Progress) (arguments : List String) :
    Talk σ (ClientRun × Exit) := do
  let p ← client.spawn arguments
  if cancelled then Talk.fail .cancelled
  else
    Talk.say (p.allLines.filterMap progress?)
    match p.exit with
    | none => Talk.respond .untilCancelled
    | some e => return (p, e)

end Client

end Stevedore.Docker
