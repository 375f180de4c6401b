import Stevedore.Text.Digit
import Stevedore.Toml.Value

/-!
Unquoted scalars of TOML: numbers, the special floats, booleans, dates and times. A scalar is first
cut out of the text as one run of characters and then read as a whole (`scalar?`), so a run that is
no scalar of any kind is refused.
-/

namespace Stevedore.Toml

/-! ## Runs of digits -/

/-- Whether `s` is a run of digits with single underscores between them. -/
def isDigitRun (isDigit : Char → Bool) : List Char → Bool
  | [] => false
  | [c] => isDigit c
  | c :: '_' :: rest => isDigit c && isDigitRun isDigit rest
  | c :: rest => isDigit c && isDigitRun isDigit rest

/-- The number that a run of digits denotes, underscores passed over. -/
def digitRunValue (base : Nat) (s : List Char) : Nat :=
  (s.filter (· ≠ '_')).foldl (fun n c => base * n + (Text.hexDigit? c).getD 0) 0

/-- Drops one sign at the front. -/
def dropSign : List Char → List Char
  | '+' :: rest => rest
  | '-' :: rest => rest
  | s => s

/-! ## Integers and floats -/

/-- The whole part of a decimal number has no leading zeros. -/
def isWholePart (s : List Char) : Bool :=
  isDigitRun Char.isDigit s && (s.length = 1 || s.head? != some '0')

/-- A decimal integer, signed or not, or an unsigned one in another base. -/
def integer? (s : List Char) : Option Int :=
  match s with
  | '0' :: 'x' :: rest =>
    if isDigitRun (fun c => (Text.hexDigit? c).isSome) rest then some (digitRunValue 16 rest)
    else none
  | '0' :: 'o' :: rest =>
    if isDigitRun (fun c => '0' ≤ c && c ≤ '7') rest then some (digitRunValue 8 rest) else none
  | '0' :: 'b' :: rest =>
    if isDigitRun (fun c => c = '0' || c = '1') rest then some (digitRunValue 2 rest) else none
  | s =>
    let digits := dropSign s
    if isWholePart digits then
      let n : Int := digitRunValue 10 digits
      some (if s.head? = some '-' then -n else n)
    else none

/-- Whether `s` is the exponent of a float. -/
def isExponent : List Char → Bool
  | 'e' :: rest => isDigitRun Char.isDigit (dropSign rest)
  | 'E' :: rest => isDigitRun Char.isDigit (dropSign rest)
  | _ => false

/-- Whether `s` is a float: a fraction, an exponent or both after the whole part, or one of the
special values. -/
def isFloat (s : List Char) : Bool :=
  let unsigned := dropSign s
  if unsigned = "inf".toList || unsigned = "nan".toList then true
  else
    let whole := unsigned.takeWhile fun c => c.isDigit || c = '_'
    let rest := unsigned.drop whole.length
    isWholePart whole &&
      match rest with
      | '.' :: after =>
        let fraction := after.takeWhile fun c => c.isDigit || c = '_'
        let last := after.drop fraction.length
        isDigitRun Char.isDigit fraction && (last.isEmpty || isExponent last)
      | after => isExponent after

/-! ## Scalars -/

/-- The value that an unquoted run of characters stands for. -/
def scalar? (s : List Char) : Option Value :=
  if s = "true".toList then some (.boolean true)
  else if s = "false".toList then some (.boolean false)
  else
    match integer? s with
    | some n => some (.integer n)
    | none =>
      if isFloat s then some (.float (String.ofList s))
      else (DateTime.read? s).map .dateTime

end Stevedore.Toml
