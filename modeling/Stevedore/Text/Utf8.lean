/-!
Reading UTF-8. The bytes go one at a time through a machine that stands between two characters or
inside one; `scan` lists what they amount to, with nothing in place of a sequence that is malformed.
A malformed sequence is as long as it could still have been the start of a character, so the byte
that broke it is read again by itself.
-/

namespace Stevedore.Text.Utf8

/-- The inside of a character: what has been read of it, how many bytes are owed, and the bounds of
the next one. -/
structure Pending where
  value : Nat
  owed : Nat
  least : Nat := 0x80
  greatest : Nat := 0xBF
deriving DecidableEq, Repr

/-- What one byte completes, and where the machine stands after it. -/
abbrev Outcome := List (Option Char) × Option Pending

/-- The first byte of a character. The bounds on the second byte keep out values with a shorter
form, surrogates and values above the last code point. -/
def first (b : Nat) : Outcome :=
  if b < 0x80 then ([some (Char.ofNat b)], none)
  else if b < 0xC2 then ([none], none)
  else if b < 0xE0 then ([], some ⟨b - 0xC0, 1, 0x80, 0xBF⟩)
  else if b = 0xE0 then ([], some ⟨0, 2, 0xA0, 0xBF⟩)
  else if b = 0xED then ([], some ⟨0xD, 2, 0x80, 0x9F⟩)
  else if b < 0xF0 then ([], some ⟨b - 0xE0, 2, 0x80, 0xBF⟩)
  else if b = 0xF0 then ([], some ⟨0, 3, 0x90, 0xBF⟩)
  else if b < 0xF4 then ([], some ⟨b - 0xF0, 3, 0x80, 0xBF⟩)
  else if b = 0xF4 then ([], some ⟨4, 3, 0x80, 0x8F⟩)
  else ([none], none)

/-- The next byte. -/
def step : Option Pending → Nat → Outcome
  | none, b => first b
  | some p, b =>
    if p.least ≤ b ∧ b ≤ p.greatest then
      let value := 64 * p.value + (b - 0x80)
      if p.owed ≤ 1 then ([some (Char.ofNat value)], none)
      else ([], some ⟨value, p.owed - 1, 0x80, 0xBF⟩)
    else
      let (out, next) := first b
      (none :: out, next)

/-- The characters that the bytes amount to, with nothing for a malformed sequence. -/
def scan : Option Pending → List UInt8 → List (Option Char)
  | none, [] => []
  | some _, [] => [none]
  | state, b :: rest =>
    let (out, next) := step state b.toNat
    out ++ scan next rest

/-- The text, if the bytes are well formed. -/
def decode? (bytes : List UInt8) : Option String :=
  ((scan none bytes).mapM id).map String.ofList

/-- The text, with the replacement character for every malformed sequence. -/
def decode (bytes : List UInt8) : String :=
  String.ofList ((scan none bytes).map (·.getD '\ufffd'))

example : decode [0xE2, 0x82, 0xAC, 0xF0, 0x9F, 0x98, 0x80] = "€😀" := by decide

example : decode [0xE2, 0x82, 0x41, 0xC0, 0xAF, 0xED, 0xA0, 0x80] =
    "\ufffdA\ufffd\ufffd\ufffd\ufffd\ufffd" := by
  decide

end Stevedore.Text.Utf8
