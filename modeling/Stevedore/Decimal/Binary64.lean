import Stevedore.Decimal.Literal

/-!
Floating-point numbers of 64 bits. A number is a whole multiple of the least positive one, its unit
`2 ^ -1074`, so numbers are compared as integers. A decimal number becomes the nearest of them, the
even one of two that are equally near; and a number is written with the fewest digits that lead back
to it, without a power of ten.
-/

namespace Stevedore

/-- A number of 64 bits that is a number. -/
inductive Binary64 where
  | finite (isNegative : Bool) (units : Nat)
  | infinite (isNegative : Bool)
deriving DecidableEq, Repr

namespace Binary64

/-! ## Units -/

/-- How many units make one. -/
def one : Nat := Nat.pow 2 1074

/-- As many units as no finite number has. -/
def limit : Nat := Nat.pow 2 2098

/-- The distance in units between a number of this size and the next larger one: fifty-three binary
digits are kept. -/
def step (units : Nat) : Nat := Nat.pow 2 (units.log2 - 52)

/-- A quotient as the nearest whole number, the even one of two. -/
def nearestQuotient (num den : Nat) : Nat :=
  let q := num / den
  let twice := 2 * (num % den)
  if twice < den || (twice = den && q % 2 = 0) then q else q + 1

/-- The nearest whole number is at most half of one away from the quotient. -/
theorem nearestQuotient_close (num : Nat) {den : Nat} (h : 0 < den) :
    2 * num ≤ 2 * (nearestQuotient num den * den) + den ∧
      2 * (nearestQuotient num den * den) ≤ 2 * num + den := by
  have parts : num / den * den + num % den = num := by
    rw [Nat.mul_comm]; exact Nat.div_add_mod num den
  have rest := Nat.mod_lt num h
  simp only [nearestQuotient]
  split
  · next hc =>
    simp only [Bool.or_eq_true, Bool.and_eq_true, decide_eq_true_eq] at hc
    omega
  · next hc =>
    simp only [Bool.or_eq_true, Bool.and_eq_true, decide_eq_true_eq] at hc
    rw [Nat.add_mul, Nat.one_mul]
    omega

/-- A quotient in units, with as many binary digits as are kept. -/
def nearestUnits (num den : Nat) : Nat :=
  let step := step (num / den)
  nearestQuotient num (den * step) * step

/-- The number's place among all numbers. Both zeros have the same. -/
def rank : Binary64 → Int
  | finite isNegative units => if isNegative then -(units : Int) else units
  | infinite isNegative => if isNegative then -(limit : Int) else limit

instance : Ord Binary64 := ⟨compareOn rank⟩

/-! ## From decimal numbers -/

/-- The number of decimal digits of a number. -/
def width (n : Nat) : Nat := (Nat.toDigits 10 n).length

/-- A power of ten with a whole exponent, over one with a negative exponent. -/
def scaled (n : Nat) (exponent : Int) : Nat × Nat :=
  (n * Nat.pow 10 exponent.toNat, Nat.pow 10 (-exponent).toNat)

/-- The nearest number. Numbers that are far too large or too small need no arithmetic. -/
def ofDecimal (isNegative : Bool) (d : Decimal) : Binary64 :=
  let size : Int := width d.digits + d.exponent
  if d.digits = 0 || size < -330 then finite isNegative 0
  else if 310 < size then infinite isNegative
  else
    let (num, den) := scaled d.digits d.exponent
    let units := nearestUnits (num * one) den
    if units < limit then finite isNegative units else infinite isNegative

/-! ## Writing -/

/-- Whether `n * 10 ^ exponent` is nearer to the number than to any other one, or as near and the
number is even. -/
def leadsBack (units : Nat) (exponent : Int) (n : Nat) : Bool :=
  let step := step units
  let below := if units = step * Nat.pow 2 52 && step ≠ 1 then step else 2 * step
  let (num, den) := scaled n exponent
  let at4 := 4 * num * one
  let low := (4 * units - below) * den
  let high := (4 * units + 2 * step) * den
  (low < at4 && at4 < high) || ((units / step) % 2 = 0 && (at4 = low || at4 = high))

/-- The best decimal number with this power of ten, if one leads back: the nearer one of two, and
the larger one of two that are equally near. -/
def candidate? (units : Nat) (exponent : Int) : Option Decimal :=
  let (num, den) := scaled units (-exponent)
  let n := num / (den * one)
  let nearer := if 2 * (num % (den * one)) < den * one then [n, n + 1] else [n + 1, n]
  (nearer.find? (leadsBack units exponent)).map fun n => ⟨n, exponent⟩

/-- The decimal number with the fewest digits that leads back. Seventeen digits always do. -/
def shortest (units : Nat) : Decimal :=
  let size : Int := (width (units * Nat.pow 10 400 / one) : Int) - 400
  let found := (List.range 17).findSome? fun (k : Nat) =>
    candidate? units (size - ((k : Int) + 1))
  found.getD ⟨0, 0⟩

/-- A decimal number without a power of ten and without needless zeros. -/
def positional (d : Decimal) : List Char :=
  let digits := Nat.toDigits 10 d.digits
  if 0 ≤ d.exponent then digits ++ List.replicate d.exponent.toNat '0'
  else
    let places := (-d.exponent).toNat
    let padded := List.replicate (places + 1 - digits.length) '0' ++ digits
    let whole := padded.take (padded.length - places)
    let fraction := ((padded.drop (padded.length - places)).reverse.dropWhile (· = '0')).reverse
    if fraction.isEmpty then whole else whole ++ '.' :: fraction

/-- The number as it is written. -/
def text (x : Binary64) : String :=
  let (isNegative, magnitude) :=
    match x with
    | infinite isNegative => (isNegative, "inf")
    | finite isNegative units =>
      (isNegative, if units = 0 then "0" else String.ofList (positional (shortest units)))
  if isNegative then "-" ++ magnitude else magnitude

end Binary64

/-- How a number reads when it is written and taken for a number of 64 bits. -/
example :
    let again (s : String) := ((Decimal.read? s.toList).map (Binary64.ofDecimal false)).map (·.text)
    again "1e21" = some "1000000000000000000000" ∧ again "1e-7" = some "0.0000001" ∧
      again "5." = some "5" ∧ again "18446744073709551616" = some "18446744073709552000" ∧
      again "0.10000000000000000555" = some "0.1" ∧ again "1e400" = some "inf" ∧
      again "2.98023223876953125e-8" = some "0.000000029802322387695313" := by decide +kernel

end Stevedore
