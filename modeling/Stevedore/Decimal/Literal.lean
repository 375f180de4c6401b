/-!
Decimal numbers as they are written: digits, perhaps with a point among them, and perhaps with a
power of ten after them. Reading keeps the exact value.
-/

namespace Stevedore

/-- The number `digits * 10 ^ exponent`. -/
structure Decimal where
  digits : Nat
  exponent : Int
deriving DecidableEq, Repr

namespace Decimal

/-- The number that a run of ASCII digits denotes. -/
def valueOf (digits : List Char) : Nat :=
  digits.foldl (fun n c => 10 * n + (c.toNat - '0'.toNat)) 0

/-- Reads the power of ten at the end of a number. Without one it is zero. -/
def exponent? : List Char → Option Int
  | [] => some 0
  | mark :: s =>
    let power? (digits : List Char) : Option Nat :=
      if digits.isEmpty || !digits.all Char.isDigit then none else some (valueOf digits)
    if mark = 'e' || mark = 'E' then
      match s with
      | '-' :: s => (power? s).map fun n => -(n : Int)
      | '+' :: s => (power? s).map fun n => (n : Int)
      | s => (power? s).map fun n => (n : Int)
    else none

/-- Reads a number without a sign. Digits have to stand before or after the point. -/
def read? (s : List Char) : Option Decimal :=
  let whole := s.takeWhile Char.isDigit
  let rest := s.dropWhile Char.isDigit
  let (fraction, rest) :=
    match rest with
    | '.' :: rest => (rest.takeWhile Char.isDigit, rest.dropWhile Char.isDigit)
    | rest => ([], rest)
  if whole.isEmpty && fraction.isEmpty then none
  else
    (exponent? rest).map fun exponent =>
      ⟨valueOf (whole ++ fraction), exponent - (fraction.length : Int)⟩

example : read? "1.50e-3".toList = some ⟨150, -5⟩ ∧ read? "5.".toList = some ⟨5, 0⟩ ∧
    read? ".5".toList = some ⟨5, -1⟩ ∧ read? ".".toList = none ∧ read? "1e".toList = none ∧
    read? "1_0".toList = none := by decide

end Decimal

end Stevedore
