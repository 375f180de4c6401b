import Stevedore.Engine.Objects
import Stevedore.Text.Blank
import Stevedore.Text.Digit

/-!
The lines of a build that tell how far it has come. There are two forms, one for each kind of
builder: `Step 2/5 : RUN make` and `#7 [stage 2/5] RUN make`, the second with or without the name of
a stage.
-/

namespace Stevedore.Docker

/-- Drops a fixed beginning. -/
def dropStart? : List Char → List Char → Option (List Char)
  | [], s => some s
  | _ :: _, [] => none
  | p :: ps, c :: s => if p = c then dropStart? ps s else none

/-- Reads at least one digit of any script. -/
def digits? (s : List Char) : Option (List Char × List Char) :=
  match s.takeWhile Text.isDecimalDigit with
  | [] => none
  | ds => some (ds, s.dropWhile Text.isDecimalDigit)

/-- A line of a build that matches one of the forms: two numbers as they are written, and what is
being done. -/
structure StepLine where
  step : List Char
  totalSteps : List Char
  message : List Char

/-- Reads two numbers with a slash between them, `separator`, and the rest of the line. -/
def stepLine? (separator : String) (s : List Char) : Option StepLine := do
  let (step, s) ← digits? s
  let s ← dropStart? ['/'] s
  let (totalSteps, s) ← digits? s
  let message ← dropStart? separator.toList s
  if '\n' ∈ message then none else some ⟨step, totalSteps, message⟩

/-- Drops a word without a closing bracket in it, and the space after it. -/
def dropWord? (s : List Char) : Option (List Char) :=
  let inWord (c : Char) : Bool := c ≠ ']' && !Text.isBlank c
  match s.takeWhile inWord, s.dropWhile inWord with
  | _ :: _, ' ' :: rest => some rest
  | _, _ => none

/-- The form that counts the steps of a build. -/
def plainStep? (s : List Char) : Option StepLine :=
  (dropStart? "Step ".toList s).bind (stepLine? " : ")

/-- The form that counts the steps of each stage. -/
def stageStep? (s : List Char) : Option StepLine := do
  let s ← dropStart? ['#'] s
  let (_, s) ← digits? s
  let s ← dropStart? " [".toList s
  (dropWord? s).bind (stepLine? "] ") <|> stepLine? "] " s

/-- A number of steps: it fits 32 bits. -/
def stepNumber? (digits : List Char) : Option Nat :=
  (Text.digitsValue? digits).filter (· < 4294967296)

/-- How far a build has come, if a line of its output tells. -/
def buildProgress? (line : String) : Option BuildProgress := do
  let s := Text.trimChars line.toList
  let found ← plainStep? s <|> stageStep? s
  return ⟨← stepNumber? found.step, ← stepNumber? found.totalSteps, String.ofList found.message⟩

end Stevedore.Docker
