import Stevedore.Engine.Calls
import Stevedore.Event
import Stevedore.Files.Change

/-!
Programs as data. A program posts events, asks the engine and changes files, and what it does next
depends on the replies. What the replies are is not said here: the same program runs against any
engine and any files.
-/

namespace Stevedore

/-- A program that ends with a result. -/
inductive Program (α : Type) : Type where
  | done (result : α)
  | post (event : Event) (next : Program α)
  /-- Asks the engine. Progress on the way to the reply is posted as `announce` says. -/
  | ask (call : EngineCall) (announce : Progress → Option Event) (next : Reply call → Program α)
  | change (request : FileChange) (next : Except FileError Unit → Program α)

namespace Program

/-- One program after another. -/
def bind {α β : Type} : Program α → (α → Program β) → Program β
  | done a, f => f a
  | post e next, f => post e (next.bind f)
  | ask call announce next, f => ask call announce fun r => (next r).bind f
  | change request next, f => change request fun r => (next r).bind f

instance : Monad Program where
  pure := done
  bind := bind

/-- Posts an event. -/
def tell (e : Event) : Program Unit := post e (done ())

/-- Asks the engine, with progress posted as `announce` says. -/
def call (c : EngineCall) (announce : Progress → Option Event) : Program (Reply c) :=
  ask c announce done

/-- Asks the engine and lets progress pass. -/
def quietly (c : EngineCall) : Program (Reply c) := call c fun _ => none

/-- Changes a file. -/
def alter (request : FileChange) : Program (Except FileError Unit) := change request done

end Program

/-- A program that may break off with a message. -/
abbrev Attempt := ExceptT String Program

namespace Attempt

/-- Asks the engine; a failure breaks off, with `context` before its message. -/
def engine (context : String) (c : EngineCall) : Attempt c.Answer :=
  ExceptT.mk <| (Program.quietly c).bind fun
    | .ok a => .done (.ok a)
    | .error e => .done (.error s!"{context}: {e.fullMessage}")

/-- Changes a file; a failure breaks off, with `context` before its message. -/
def files (context : String) (request : FileChange) : Attempt Unit :=
  ExceptT.mk <| (Program.alter request).bind fun
    | .ok () => .done (.ok ())
    | .error e => .done (.error s!"{context}: {e.message}")

/-- Posts an event. -/
def tell (e : Event) : Attempt Unit := ExceptT.lift (Program.tell e)

end Attempt

end Stevedore
