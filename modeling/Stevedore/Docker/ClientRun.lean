import Stevedore.Text.Blank
import Stevedore.Text.Pieces
import Stevedore.Text.Utf8

/-!
A process of the client: what it prints, how it ends, and what is made of that.
-/

namespace Stevedore.Docker

/-- How a process ended. -/
inductive Exit where
  | code (n : Nat)
  | killed
deriving DecidableEq, Repr

/-- A process of the client. -/
structure ClientRun where
  output : List UInt8 := []
  errors : List UInt8 := []
  /-- None for a process that does not end. -/
  exit : Option Exit := some (.code 0)
deriving DecidableEq

/-- Whether the process did what it was asked to do. -/
def Exit.isSuccess (e : Exit) : Bool := e = .code 0

/-- A failure, with what was printed about it. -/
def Exit.failure (e : Exit) (printed : String) : String :=
  let code :=
    match e with
    | code n => toString n
    | killed => "unknown"
  if printed.isEmpty then s!"docker exited with code {code}."
  else s!"docker exited with code {code}: {printed}"

namespace ClientRun

/-- A text that is printed as a whole. -/
def message (bytes : List UInt8) : String := Text.trim (Text.Utf8.decode bytes)

/-- Drops the carriage return at the end of a line. -/
def withoutReturn (line : List UInt8) : List UInt8 :=
  if line.getLast? = some 13 then line.dropLast else line

/-- The lines in `bytes`. The last one may lack its line end, if nothing comes after it. -/
def rawLines (ended : Bool) (bytes : List UInt8) : List (List UInt8) :=
  let pieces := Text.pieces 10 bytes
  let last := (pieces.getLast?.getD [])
  pieces.dropLast.map withoutReturn ++ if ended && !last.isEmpty then [last] else []

/-- The lines in `bytes`, each a text where it is one. -/
def lines? (p : ClientRun) (bytes : List UInt8) : List (Option String) :=
  (rawLines p.exit.isSome bytes).map Text.Utf8.decode?

/-- The lines in `bytes` up to the first that is no text. -/
def lines (p : ClientRun) (bytes : List UInt8) : List String :=
  ((p.lines? bytes).takeWhile Option.isSome).filterMap id

/-- All lines that the process prints. -/
def allLines (p : ClientRun) : List String := p.lines p.output ++ p.lines p.errors

/-- How many lines are shown of the output of a process that fails. -/
def shownLines : Nat := 20

/-- The end of the output. -/
def tail (p : ClientRun) : String :=
  let lines := p.allLines
  "\n".intercalate (lines.drop (lines.length - shownLines))

end ClientRun

example : ClientRun.rawLines true [97, 13, 10, 10, 98, 13] = [[97], [], [98, 13]] ∧
    ClientRun.rawLines false [97, 10, 98] = [[97]] := by decide

end Stevedore.Docker
