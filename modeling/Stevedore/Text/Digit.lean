/-!
Decimal digits and the reading of whole numbers. A digit may come from any script
(`isDecimalDigit`, the general category `Nd` of Unicode 16), but only the ASCII digits have a value
when a number is read (`readNat?`, `readInt64?`).
-/

namespace Stevedore.Text

/-! ## Digits of any script -/

/-- The first digit of every decimal system: its ten digits stand in a row. -/
def decimalZeros : List Nat :=
  [0x30, 0x660, 0x6F0, 0x7C0, 0x966, 0x9E6, 0xA66, 0xAE6, 0xB66, 0xBE6, 0xC66, 0xCE6, 0xD66,
   0xDE6, 0xE50, 0xED0, 0xF20, 0x1040, 0x1090, 0x17E0, 0x1810, 0x1946, 0x19D0, 0x1A80, 0x1A90,
   0x1B50, 0x1BB0, 0x1C40, 0x1C50, 0xA620, 0xA8D0, 0xA900, 0xA9D0, 0xA9F0, 0xAA50, 0xABF0,
   0xFF10, 0x104A0, 0x10D30, 0x10D40, 0x11066, 0x110F0, 0x11136, 0x111D0, 0x112F0, 0x11450,
   0x114D0, 0x11650, 0x116C0, 0x116D0, 0x116DA, 0x11730, 0x118E0, 0x11950, 0x11BF0, 0x11C50,
   0x11D50, 0x11DA0, 0x11F50, 0x16130, 0x16A60, 0x16AC0, 0x16B50, 0x16D70, 0x1CCF0, 0x1D7CE,
   0x1D7D8, 0x1D7E2, 0x1D7EC, 0x1D7F6, 0x1E140, 0x1E2F0, 0x1E4F0, 0x1E5F1, 0x1E950, 0x1FBF0]

/-- Whether `c` is a decimal digit of some script. -/
def isDecimalDigit (c : Char) : Bool :=
  decimalZeros.any fun z => z ≤ c.toNat && c.toNat < z + 10

theorem isDecimalDigit_of_isDigit {c : Char} (h : c.isDigit = true) : isDecimalDigit c = true := by
  have hc : 48 ≤ c.toNat ∧ c.toNat ≤ 57 := by
    simpa [Char.isDigit, UInt32.le_iff_toNat_le] using h
  refine List.any_eq_true.2 ⟨48, by decide, ?_⟩
  rw [Bool.and_eq_true, decide_eq_true_eq, decide_eq_true_eq]
  omega

/-- The value of a hexadecimal digit, in either case. -/
def hexDigit? (c : Char) : Option Nat :=
  if c.isDigit then some (c.toNat - '0'.toNat)
  else if 'a' ≤ c ∧ c ≤ 'f' then some (c.toNat - 'a'.toNat + 10)
  else if 'A' ≤ c ∧ c ≤ 'F' then some (c.toNat - 'A'.toNat + 10)
  else none

/-! ## Numbers -/

/-- The value of a run of ASCII digits read after `n`. -/
def appendDigits? : List Char → Nat → Option Nat
  | [], n => some n
  | c :: rest, n => if c.isDigit then appendDigits? rest (10 * n + (c.toNat - '0'.toNat)) else none

/-- The number that a non-empty run of ASCII digits denotes. -/
def digitsValue? : List Char → Option Nat
  | [] => none
  | s => appendDigits? s 0

theorem appendDigits?_eq_some_iff {s : List Char} {n k : Nat} :
    appendDigits? s n = some k ↔ (∀ c ∈ s, c.isDigit = true) ∧ Nat.ofDigitChars 10 s n = k := by
  induction s generalizing n with
  | nil => simp [appendDigits?]
  | cons c s ih =>
    rw [appendDigits?, Nat.ofDigitChars_cons, List.forall_mem_cons]
    split
    · next hc => rw [ih, and_assoc, and_iff_right hc]
    · next hc => simp [hc]

theorem digitsValue?_eq_some_iff {s : List Char} {k : Nat} :
    digitsValue? s = some k ↔
      s ≠ [] ∧ (∀ c ∈ s, c.isDigit = true) ∧ Nat.ofDigitChars 10 s 0 = k := by
  cases s with
  | nil => simp [digitsValue?]
  | cons c s =>
    show appendDigits? (c :: s) 0 = some k ↔ _
    rw [appendDigits?_eq_some_iff, and_iff_right (List.cons_ne_nil c s)]

/-- Reads a number with an optional plus sign. -/
def readNat? : List Char → Option Nat
  | '+' :: rest => digitsValue? rest
  | s => digitsValue? s

/-- Reads a whole number with an optional sign, if it fits a signed 64-bit word. -/
def readInt64? (s : List Char) : Option Int :=
  let value? : Option Int :=
    match s with
    | '-' :: rest => (digitsValue? rest).map fun n => -(n : Int)
    | s => (readNat? s).map fun n => (n : Int)
  value?.filter fun n => -9223372036854775808 ≤ n && n < 9223372036854775808

example : readInt64? "-0".toList = some 0 ∧ readInt64? "007".toList = some 7 ∧
    readInt64? "-".toList = none ∧ readInt64? "9223372036854775808".toList = none := by decide

end Stevedore.Text
