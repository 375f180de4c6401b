import Stevedore.Decimal.Binary64
import Stevedore.Toml.Scalar

/-!
Numbers that fit. A document may hold numbers of any size, but whoever takes a value up has only so
much room for its integers, and for its floats the room of 64 bits.
-/

namespace Stevedore.Toml

/-- The room that a reader has for integers: those from `least` on and below `bound`. -/
structure IntegerRoom where
  least : Int
  bound : Int
deriving DecidableEq, Repr

/-- The room for the integers of values that are passed over. -/
def IntegerRoom.wide : IntegerRoom := ⟨-(Nat.pow 2 127 : Int), Nat.pow 2 128⟩

/-- The room for the integers of values that are put aside and read later. -/
def IntegerRoom.narrow : IntegerRoom := ⟨-(Nat.pow 2 63 : Int), Nat.pow 2 64⟩

/-- Whether a float is one of the special values or no larger than floats are. -/
def floatFits (s : List Char) : Bool :=
  match Decimal.read? ((dropSign s).filter (· ≠ '_')) with
  | some d =>
    match Binary64.ofDecimal false d with
    | .finite .. => true
    | .infinite _ => false
  | none => true

mutual

/-- Whether all numbers in a value fit. -/
def Value.fits (room : IntegerRoom) : Value → Bool
  | .integer n => room.least ≤ n && n < room.bound
  | .float text => floatFits text.toList
  | .array items => allFit room items
  | .table entries => entriesFit room entries
  | _ => true

/-- Whether all numbers in some values fit. -/
def allFit (room : IntegerRoom) : List Value → Bool
  | [] => true
  | v :: rest => v.fits room && allFit room rest

/-- Whether all numbers in the values of a table fit. -/
def entriesFit (room : IntegerRoom) : List (String × Value) → Bool
  | [] => true
  | (_, v) :: rest => v.fits room && entriesFit room rest

end

/-- The ends of the room of floats. -/
example : floatFits "-1.7976931348623157e308".toList = true ∧ floatFits "1e3_09".toList = false ∧
    floatFits "-inf".toList = true ∧ floatFits "1e-400".toList = true := by decide +kernel

end Stevedore.Toml
