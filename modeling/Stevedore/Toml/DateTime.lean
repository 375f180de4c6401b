/-!
Dates and times of TOML. A date may have a time after it and a time an offset from universal time,
and a time may also stand alone. Reading checks that the day and the time exist; writing gives one
form to all ways of writing the same date and time.
-/

namespace Stevedore.Toml

/-- A day of the calendar. -/
structure Date where
  year : Nat
  month : Nat
  day : Nat
deriving DecidableEq, Repr

/-- A time of day. The sixtieth second is that of a minute with a leap second. -/
structure TimeOfDay where
  hour : Nat
  minute : Nat
  second : Nat
  nanosecond : Nat
deriving DecidableEq, Repr

/-- How a time relates to universal time. -/
inductive Offset where
  | universal
  /-- So many minutes ahead of it. -/
  | ahead (minutes : Int)
deriving DecidableEq, Repr

/-- A date, a time, or both. -/
inductive DateTime where
  | date (date : Date)
  | time (time : TimeOfDay)
  | both (date : Date) (time : TimeOfDay) (offset : Option Offset)
deriving DecidableEq, Repr

/-! ## Reading -/

/-- Reads exactly `n` digits after those that gave `value`. -/
def fixedDigits? : Nat → Nat → List Char → Option (Nat × List Char)
  | 0, value, s => some (value, s)
  | n + 1, value, c :: s =>
    if c.isDigit then fixedDigits? n (10 * value + (c.toNat - '0'.toNat)) s else none
  | _ + 1, _, [] => none

/-- Reads one given character. -/
def character? (c : Char) : List Char → Option (List Char)
  | c' :: s => if c' = c then some s else none
  | [] => none

def isLeapYear (year : Nat) : Bool :=
  year % 4 = 0 && (year % 100 ≠ 0 || year % 400 = 0)

/-- The number of days of a month. -/
def daysInMonth (year month : Nat) : Nat :=
  if month = 2 then (if isLeapYear year then 29 else 28)
  else if month = 4 || month = 6 || month = 9 || month = 11 then 30 else 31

/-- Whether the calendar has the day. -/
def Date.isOnCalendar (d : Date) : Bool :=
  1 ≤ d.month && d.month ≤ 12 && 1 ≤ d.day && d.day ≤ daysInMonth d.year d.month

/-- Reads a date such as `1979-05-27`. -/
def Date.read? (s : List Char) : Option (Date × List Char) := do
  let (year, s) ← fixedDigits? 4 0 s
  let s ← character? '-' s
  let (month, s) ← fixedDigits? 2 0 s
  let s ← character? '-' s
  let (day, s) ← fixedDigits? 2 0 s
  let d : Date := ⟨year, month, day⟩
  if d.isOnCalendar then some (d, s) else none

/-- Reads a fraction of a second, in nanoseconds. What is smaller is cut off. -/
def nanoseconds? : List Char → Option (Nat × List Char)
  | '.' :: s =>
    let digits := s.takeWhile Char.isDigit
    if digits.isEmpty then none
    else
      (fixedDigits? 9 0 (digits.take 9 ++ List.replicate (9 - digits.length) '0')).map fun (n, _) =>
        (n, s.drop digits.length)
  | s => some (0, s)

/-- Reads a time of day such as `07:32:00.5`. The seconds may be missing. -/
def TimeOfDay.read? (s : List Char) : Option (TimeOfDay × List Char) := do
  let (hour, s) ← fixedDigits? 2 0 s
  let s ← character? ':' s
  let (minute, s) ← fixedDigits? 2 0 s
  let (second, nanosecond, s) ←
    match s with
    | ':' :: s => do
      let (second, s) ← fixedDigits? 2 0 s
      let (nanosecond, s) ← nanoseconds? s
      pure (second, nanosecond, s)
    | s => pure (0, 0, s)
  if hour ≤ 23 ∧ minute ≤ 59 ∧ second ≤ 60 then some (⟨hour, minute, second, nanosecond⟩, s)
  else none

/-- Reads an offset, which all of `s` has to be. There may be none. -/
def offset? : List Char → Option (Option Offset)
  | [] => some none
  | ['Z'] => some (some .universal)
  | ['z'] => some (some .universal)
  | sign :: s => do
    let (hours, s) ← fixedDigits? 2 0 s
    let s ← character? ':' s
    let (minutes, s) ← fixedDigits? 2 0 s
    let total : Int := hours * 60 + minutes
    if !s.isEmpty || 23 < hours || 59 < minutes then none
    else if sign = '+' then some (some (.ahead total))
    else if sign = '-' then some (some (.ahead (-total)))
    else none

/-- The date or time that `s` is. A `T` or a space stands between the two. -/
def DateTime.read? (s : List Char) : Option DateTime :=
  match Date.read? s with
  | some (d, []) => some (.date d)
  | some (d, c :: s) =>
    if c = 'T' || c = 't' || c = ' ' then do
      let (t, s) ← TimeOfDay.read? s
      return .both d t (← offset? s)
    else none
  | none =>
    match TimeOfDay.read? s with
    | some (t, []) => some (.time t)
    | _ => none

/-! ## Writing -/

/-- A number with zeros in front of it, up to a width. -/
def padded (width n : Nat) : List Char :=
  let digits := Nat.toDigits 10 n
  List.replicate (width - digits.length) '0' ++ digits

def Date.text (d : Date) : List Char :=
  padded 4 d.year ++ '-' :: padded 2 d.month ++ '-' :: padded 2 d.day

/-- A fraction of a second without needless zeros. -/
def fractionText (nanosecond : Nat) : List Char :=
  if nanosecond = 0 then []
  else '.' :: ((padded 9 nanosecond).reverse.dropWhile (· = '0')).reverse

def TimeOfDay.text (t : TimeOfDay) : List Char :=
  padded 2 t.hour ++ ':' :: padded 2 t.minute ++ ':' :: padded 2 t.second ++
    fractionText t.nanosecond

def Offset.text : Offset → List Char
  | universal => ['Z']
  | ahead minutes =>
    let n := minutes.natAbs
    (if minutes < 0 then '-' else '+') :: padded 2 (n / 60) ++ ':' :: padded 2 (n % 60)

/-- The date and time with a `T` between them. -/
def DateTime.text : DateTime → String
  | date d => String.ofList d.text
  | time t => String.ofList t.text
  | both d t offset =>
    String.ofList (d.text ++ 'T' :: t.text ++ (offset.map Offset.text).getD [])

/-- How a date and time reads when it is written in the one form. -/
example :
    let again (s : String) := (DateTime.read? s.toList).map (·.text)
    again "1979-05-27 07:32z" = some "1979-05-27T07:32:00Z" ∧
      again "07:32:00.120" = some "07:32:00.12" ∧
      again "1979-05-27t00:00:60-00:00" = some "1979-05-27T00:00:60+00:00" ∧
      again "1979-05-27" = some "1979-05-27" ∧ again "1979-02-29" = none ∧
      again "07:32:00." = none ∧ again "07:32Z" = none ∧ again "1979-05-27T07:32:00-07:30" =
        some "1979-05-27T07:32:00-07:30" := by decide +kernel

end Stevedore.Toml
