import Stevedore.Json.Value
import Stevedore.Text.Digit

/-!
Reading a JSON document (RFC 8259), to its end and strictly: no comments, no trailing commas, no
control characters inside texts.

Every reader gives back what it read together with what is left. Values nest, so the readers for
values share one measure, the fuel, which `document?` computes from the length of the document:
each call uses up a character or ends.
-/

namespace Stevedore.Json

/-- A reader: a value and the rest of the document, or nothing if the document is malformed. -/
abbrev Reader (α : Type) := List Char → Option (α × List Char)

/-- Drops white space. -/
def dropSpace (s : List Char) : List Char :=
  s.dropWhile fun c => c = ' ' || c = '\t' || c = '\n' || c = '\r'

/-! ## Numbers -/

/-- Reads at least one digit. -/
def digits? (s : List Char) : Option (List Char × List Char) :=
  match s.takeWhile Char.isDigit with
  | [] => none
  | ds => some (ds, s.dropWhile Char.isDigit)

/-- Reads the whole part of a number: a zero stands alone. -/
def whole? : Reader (List Char)
  | '0' :: s => some (['0'], s)
  | s => digits? s

/-- Reads the fraction of a number, if it has one. -/
def fraction? : Reader (List Char)
  | '.' :: s => (digits? s).map fun (ds, s) => ('.' :: ds, s)
  | s => some ([], s)

/-- Reads the exponent of a number, if it has one. -/
def exponent? : Reader (List Char)
  | e :: s =>
    if e = 'e' || e = 'E' then
      match s with
      | '+' :: s => (digits? s).map fun (ds, s) => (e :: '+' :: ds, s)
      | '-' :: s => (digits? s).map fun (ds, s) => (e :: '-' :: ds, s)
      | s => (digits? s).map fun (ds, s) => (e :: ds, s)
    else some ([], e :: s)
  | [] => some ([], [])

/-- Reads a number without its sign. -/
def magnitude? : Reader (List Char) := fun s => do
  let (w, s) ← whole? s
  let (f, s) ← fraction? s
  let (e, s) ← exponent? s
  return (w ++ f ++ e, s)

/-- Reads a number. -/
def number? : Reader String
  | '-' :: s => (magnitude? s).map fun (ds, s) => (String.ofList ('-' :: ds), s)
  | s => (magnitude? s).map fun (ds, s) => (String.ofList ds, s)

/-! ## Texts -/

/-- The code unit that four hexadecimal digits write. -/
def codeUnit? (a b c d : Char) : Option Nat := do
  return 4096 * (← Text.hexDigit? a) + 256 * (← Text.hexDigit? b) + 16 * (← Text.hexDigit? c) +
    (← Text.hexDigit? d)

/-- A part of a text: a character, or a code unit written in hexadecimal. -/
inductive TextPart where
  | char (c : Char)
  | unit (n : Nat)

/-- The character after a backslash that is short for another. -/
def shortEscape? : Char → Option Char
  | '"' => some '"'
  | '\\' => some '\\'
  | '/' => some '/'
  | 'b' => some '\x08'
  | 'f' => some '\x0c'
  | 'n' => some '\n'
  | 'r' => some '\r'
  | 't' => some '\t'
  | _ => none

/-- Reads a text after its opening quote, up to the closing one. -/
def textParts? : Reader (List TextPart)
  | [] => none
  | '"' :: s => some ([], s)
  | '\\' :: 'u' :: a :: b :: c :: d :: s => do
    let n ← codeUnit? a b c d
    let (parts, s) ← textParts? s
    return (.unit n :: parts, s)
  | '\\' :: c :: s => do
    let e ← shortEscape? c
    let (parts, s) ← textParts? s
    return (.char e :: parts, s)
  | c :: s =>
    if c.toNat < 0x20 || c = '\\' then none
    else do
      let (parts, s) ← textParts? s
      return (.char c :: parts, s)

/-- Whether a code unit is the first half of a surrogate pair. -/
def isHigh (n : Nat) : Bool := 0xD800 ≤ n && n < 0xDC00

/-- Whether a code unit is the second half of a surrogate pair. -/
def isLow (n : Nat) : Bool := 0xDC00 ≤ n && n < 0xE000

/-- The characters of a text. The halves of a surrogate pair belong together. -/
def joined? : List TextPart → Option (List Char)
  | [] => some []
  | .char c :: rest => (joined? rest).map (c :: ·)
  | .unit h :: .unit l :: rest =>
    if isHigh h && isLow l then
      (joined? rest).map (Char.ofNat (0x10000 + 0x400 * (h - 0xD800) + (l - 0xDC00)) :: ·)
    else if isHigh h || isLow h then none
    else (joined? (.unit l :: rest)).map (Char.ofNat h :: ·)
  | .unit n :: rest =>
    if isHigh n || isLow n then none else (joined? rest).map (Char.ofNat n :: ·)

/-- Reads a text after its opening quote. -/
def text? : Reader TextValue := fun s => do
  let (parts, s) ← textParts? s
  return ((joined? parts).map String.ofList, s)

/-! ## Values -/

mutual

/-- Reads a value. -/
def value? : Nat → Reader Value
  | 0, _ => none
  | fuel + 1, s =>
    match dropSpace s with
    | 'n' :: 'u' :: 'l' :: 'l' :: s => some (.null, s)
    | 't' :: 'r' :: 'u' :: 'e' :: s => some (.boolean true, s)
    | 'f' :: 'a' :: 'l' :: 's' :: 'e' :: s => some (.boolean false, s)
    | '"' :: s => (text? s).map fun (t, s) => (.text t, s)
    | '[' :: s =>
      match dropSpace s with
      | ']' :: s => some (.array [], s)
      | s => (items? fuel s).map fun (items, s) => (.array items, s)
    | '\x7b' :: s =>
      match dropSpace s with
      | '\x7d' :: s => some (.object [], s)
      | s => (entries? fuel s).map fun (entries, s) => (.object entries, s)
    | s => (number? s).map fun (n, s) => (.number n, s)

/-- Reads the items of an array that has some, and its end. -/
def items? : Nat → Reader (List Value)
  | 0, _ => none
  | fuel + 1, s => do
    let (item, s) ← value? fuel s
    match dropSpace s with
    | ',' :: s => (items? fuel s).map fun (items, s) => (item :: items, s)
    | ']' :: s => some ([item], s)
    | _ => none

/-- Reads the entries of an object that has some, and its end. -/
def entries? : Nat → Reader (List (TextValue × Value))
  | 0, _ => none
  | fuel + 1, s =>
    match dropSpace s with
    | '"' :: s => do
      let (name, s) ← text? s
      match dropSpace s with
      | ':' :: s => do
        let (v, s) ← value? fuel s
        match dropSpace s with
        | ',' :: s => (entries? fuel s).map fun (entries, s) => ((name, v) :: entries, s)
        | '\x7d' :: s => some ([(name, v)], s)
        | _ => none
      | _ => none
    | _ => none

end

/-- The value that a document holds. -/
def document? (s : String) : Option Value := do
  let (v, rest) ← value? (s.length + 1) s.toList
  if (dropSpace rest).isEmpty then some v else none

end Stevedore.Json
