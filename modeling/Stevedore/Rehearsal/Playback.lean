import Stevedore.Disk.Change
import Stevedore.Docker.Conversation
import Stevedore.Invocation

/-!
A workplace in which the processes of the client have been recorded. A process is found by the first
of its arguments, or the first two where these make up its name; the n-th process of a name plays
the n-th recording of it, or the last one. The disk is held in memory, and what is printed is kept.

An interruption waits for the first process of a name. The second one ends everything where it
stands.
-/

namespace Stevedore.Rehearsal

open Docker (Client ClientRun Talk)

/-- The state of a workplace with recorded processes. -/
structure Playback where
  recordings : NameMap (List ClientRun) := ∅
  /-- Whether there is no client at all. -/
  isMissing : Bool := false
  /-- The processes that the interruptions wait for. -/
  interruptions : List String := []
  /-- The arguments of the processes of each name, in order. -/
  calls : NameMap (List (List String)) := ∅
  disk : Disk := {}
  output : List UInt8 := []
  errors : List UInt8 := []
  isCancelled : Bool := false
  isAbandoned : Bool := false

namespace Playback

/-- The name of a process. -/
def processName : List String → String
  | first :: rest =>
    if first = "image" || first = "network" then " ".intercalate (first :: rest.take 1) else first
  | [] => ""

/-- The recording of the n-th process of a name. A process that was not recorded does nothing. -/
def recording (w : Playback) (name : String) (n : Nat) : ClientRun :=
  let recorded := (w.recordings.get? name).getD []
  (recorded[n]? <|> recorded.getLast?).getD {}

/-- Interrupts once. -/
def interrupt (w : Playback) : Playback :=
  if w.isCancelled then { w with isAbandoned := true } else { w with isCancelled := true }

/-- Lets the interruptions happen that wait for no other process. -/
def release (w : Playback) : List String → Playback
  | [] => { w with interruptions := [] }
  | name :: rest =>
    if w.calls.contains name then w.interrupt.release rest
    else { w with interruptions := name :: rest }

/-- Starts a process. -/
def start (arguments : List String) (w : Playback) : Option ClientRun × Playback :=
  if w.isMissing then (none, w)
  else
    let name := processName arguments
    let earlier := (w.calls.get? name).getD []
    let p := w.recording name earlier.length
    let w := { w with calls := w.calls.insert name (earlier ++ [arguments]) }
    (some p, w.release w.interruptions)

/-- Prints. -/
def print (text : String) (w : Playback) : Playback :=
  { w with output := w.output ++ text.toUTF8.toList }

/-- Prints where mistakes are told. -/
def complain (text : String) (w : Playback) : Playback :=
  { w with errors := w.errors ++ text.toUTF8.toList }

/-- Shows what a process prints. -/
def display (p : ClientRun) (w : Playback) : Playback :=
  { w with output := w.output ++ p.output, errors := w.errors ++ p.errors }

/-- The client whose processes were recorded. -/
def client : Client Playback := ⟨start, display⟩

/-- Takes a call. Nothing comes back from one that is abandoned. -/
def ask (cancelled : Bool) (call : EngineCall) (w : Playback) :
    (List Progress × Response call.Answer) × Playback :=
  let ((progress, response), w) := client.talk cancelled call w
  if w.isAbandoned then ((progress, .never), w) else ((progress, response), w)

/-- Makes a change. -/
def change (request : FileChange) (w : Playback) : Except FileError Unit × Playback :=
  let (result, disk) := Disk.change request w.disk
  (result, { w with disk })

/-- The surroundings that a playback makes. -/
def surroundings : Surroundings Playback where
  ask := ask
  change := change
  isCancelled := (·.isCancelled)

/-- The workplace that a playback makes. -/
def workplace (host : Host) (workingDirectory : Path) : Workplace Playback where
  surroundings := surroundings
  host := host
  workingDirectory := workingDirectory
  read := fun path w => (w.disk.read path).mapError (·.message)
  print := print
  complain := complain

end Playback

end Stevedore.Rehearsal
