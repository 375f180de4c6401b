import Stevedore.Decimal.Binary64
import Stevedore.Text.Digit
import Stevedore.Text.Pattern

/-!
Values that a log directive asks a field to have. A value is taken for the first kind that it can
be: a truth value, a whole number, a number with a fraction, or else a pattern for the text of the
field. Values of different kinds are ordered by their kind.
-/

namespace Stevedore

/-- The value that a field is asked to have. -/
inductive LogValue where
  | boolean (value : Bool)
  | float (value : Binary64)
  /-- The result of an operation that has no result. -/
  | notANumber
  | natural (value : Nat)
  | integer (value : Int)
  | pattern (text : String)
deriving DecidableEq, Repr

namespace LogValue

/-- Reads a number without a sign that may have a fraction, or the name of a special one. -/
def magnitude? (isNegative : Bool) (s : List Char) : Option LogValue :=
  let name := String.ofList (s.map Char.toLower)
  if name = "nan" then some .notANumber
  else if name = "inf" || name = "infinity" then some (.float (.infinite isNegative))
  else (Decimal.read? s).map fun d => .float (.ofDecimal isNegative d)

/-- Reads a number that may have a fraction. -/
def float? : List Char → Option LogValue
  | '-' :: s => magnitude? true s
  | '+' :: s => magnitude? false s
  | s => magnitude? false s

/-- Reads a value. Whole numbers have 64 bits, with a sign only where it is needed. -/
def read? (s : List Char) : Option LogValue :=
  if s = "true".toList then some (.boolean true)
  else if s = "false".toList then some (.boolean false)
  else
    let natural? := ((Text.readNat? s).filter (· < Nat.pow 2 64)).map LogValue.natural
    let integer? := (Text.readInt64? s).map LogValue.integer
    let pattern? := if Text.isPattern s then some (LogValue.pattern (String.ofList s)) else none
    natural? <|> integer? <|> float? s <|> pattern?

/-- The place of the kind of a value among all kinds. -/
def rank : LogValue → Nat
  | boolean _ => 0
  | float _ => 1
  | notANumber => 2
  | natural _ => 3
  | integer _ => 4
  | pattern _ => 5

/-- The order of values. -/
def order : LogValue → LogValue → Ordering
  | boolean a, boolean b => compare a b
  | float a, float b => compare a b
  | natural a, natural b => compare a b
  | integer a, integer b => compare a b
  | pattern a, pattern b => compare a b
  | a, b => compare a.rank b.rank

instance : Ord LogValue := ⟨order⟩

/-- The value as it is written. -/
def text : LogValue → String
  | boolean b => toString b
  | float x => x.text
  | notANumber => "NaN"
  | natural n => toString n
  | integer n => toString n
  | pattern s => s

/-- How a value reads when it is written and taken for a value. -/
example :
    let again (s : String) := (read? s.toList).map (·.text)
    again "007" = some "7" ∧ again "-0" = some "0" ∧ again "-0.0" = some "-0" ∧
      again ".5" = some "0.5" ∧ again "-Infinity" = some "-inf" ∧ again "-NaN" = some "NaN" ∧
      again "18446744073709551616" = some "18446744073709552000" ∧ again "1_000" = some "1_000" ∧
      again "+" = none ∧ again "" = some "" := by decide +kernel

end LogValue

end Stevedore
