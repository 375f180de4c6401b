import Stevedore.Text.Blank
import Stevedore.Text.Digit
import Stevedore.Text.Letter

/-!
Which texts are regular expressions (`isPattern`). Only the form of a pattern matters here, so a
pattern is read for one number, how deep its parts nest, which has to stay within `deepestNest`.

What a character means hangs on the mode, which settings such as `(?x)` change for the rest of their
group. A pattern has to match whole characters, so outside Unicode mode nothing may stand for a part
of one; and word boundaries, which need to know the characters on both sides, are there for ASCII
alone. There are no counted repetitions.
-/

namespace Stevedore.Text.Pattern

/-- How characters are taken. -/
structure Mode where
  /-- Whether white space and remarks are passed over. -/
  extended : Bool := false
  /-- Whether classes are those of Unicode and not of ASCII. -/
  unicode : Bool := true
deriving DecidableEq, Repr

/-- The depth that a pattern may have. -/
def deepestNest : Nat := 250

/-! ## Depth -/

/-- The depth of parts that stand side by side: one part alone is no level of its own. -/
def together : List Nat → Nat
  | [] => 0
  | [depth] => depth
  | depths => 1 + depths.foldl max 0

/-- The depth of a class of items after perhaps some other set that they are combined with. -/
def combined (left : Option Nat) (items : List Nat) : Nat :=
  match left with
  | none => together items
  | some left => 1 + max left (together items)

/-! ## Remarks -/

/-- Drops white space and remarks, which go from `#` to the end of the line. -/
def dropRemarks : Bool → List Char → List Char
  | _, [] => []
  | true, c :: s => dropRemarks (c ≠ '\n') s
  | false, c :: s =>
    if isBlank c then dropRemarks false s
    else if c = '#' then dropRemarks true s
    else c :: s

/-- Drops what the mode passes over. -/
def skip (mode : Mode) (s : List Char) : List Char :=
  if mode.extended then dropRemarks false s else s

/-- The character after a dash, which tells whether the dash stands for a range. What follows the
sign of a remark counts as well. -/
def afterDash? (mode : Mode) (s : List Char) : Option Char :=
  if !mode.extended then s.head?
  else
    match s.dropWhile isBlank with
    | '#' :: s => (s.dropWhile isBlank).head?
    | s => s.head?

/-! ## Escapes -/

/-- What an escape stands for. -/
inductive Escaped where
  | literal (c : Char)
  /-- One of several characters. -/
  | oneOf
  /-- A place between characters. -/
  | place
deriving DecidableEq, Repr

/-- Reads a character by the hexadecimal digits of its code point, `n` of them still to come. -/
def codePoint? (mode : Mode) : Nat → Nat → List Char → Option (Char × List Char)
  | 0, value, s => if value.isValidChar then some (Char.ofNat value, s) else none
  | _ + 1, _, [] => none
  | n + 1, value, c :: s =>
    (hexDigit? c).bind fun digit => codePoint? mode n (16 * value + digit) (skip mode s)

/-- The letters that stand for controls after a backslash. -/
def controls : List (Char × Char) :=
  [('a', '\x07'), ('f', '\x0c'), ('n', '\n'), ('r', '\r'), ('t', '\t'), ('v', '\x0b')]

/-- Whether the character stands for itself after a backslash: the ASCII characters do that are
neither letters nor digits, but for the angles. -/
def isQuotable (c : Char) : Bool :=
  c.toNat < 0x80 && !c.isAlphanum && c ≠ '<' && c ≠ '>'

/-- Reads a character by its code point. Outside Unicode mode two digits name a byte. -/
def literal? (mode : Mode) (digits : Nat) (s : List Char) : Option (Escaped × List Char) := do
  let (c, s) ← codePoint? mode digits 0 (skip mode s)
  if digits = 2 && !mode.unicode && 0x80 ≤ c.toNat then none else some (.literal c, s)

/-- Reads the name of a general category, which has one letter. -/
def category? (mode : Mode) (s : List Char) : Option (Escaped × List Char) :=
  match skip mode s with
  | name :: s =>
    if mode.unicode && "CLMNPSZ".toList.contains name.toUpper then some (.oneOf, skip mode s)
    else none
  | [] => none

/-- Reads what follows a backslash. -/
def escape? (mode : Mode) : List Char → Option (Escaped × List Char)
  | [] => none
  | 'x' :: s => literal? mode 2 s
  | 'u' :: s => literal? mode 4 s
  | 'U' :: s => literal? mode 8 s
  | c :: s =>
    if c = 'p' || c = 'P' then category? mode s
    else if "dsw".toList.contains c then some (.oneOf, s)
    else if "DSW".toList.contains c then if mode.unicode then some (.oneOf, s) else none
    else if c = 'A' || c = 'z' then some (.place, s)
    else if "bB<>".toList.contains c then if mode.unicode then none else some (.place, s)
    else if isQuotable c then some (.literal c, s)
    else (controls.lookup c).map fun c => (.literal c, s)

/-! ## Classes -/

/-- Reads one end of a range, or an item by itself, which is nothing if it is more than one
character. -/
def classItem? (mode : Mode) : List Char → Option (Option Char × List Char)
  | [] => none
  | '\\' :: s =>
    match escape? mode s with
    | some (.literal c, s) => some (some c, s)
    | some (.oneOf, s) => some (none, s)
    | _ => none
  | c :: s => if mode.unicode || c.toNat < 0x80 then some (some c, s) else none

/-- Reads an item or a range, whose ends have to be characters in order. -/
def classRange? (mode : Mode) (s : List Char) : Option (List Char) := do
  let (first, s) ← classItem? mode s
  match skip mode s with
  | '-' :: s' =>
    if afterDash? mode s' = some ']' || afterDash? mode s' = some '-' then some ('-' :: s')
    else
      let (last, s) ← classItem? mode (skip mode s')
      if (← first) ≤ (← last) then some s else none
  | s => some s

/-- The classes that have names in brackets of their own. -/
def classNames : List String :=
  ["alnum", "alpha", "ascii", "blank", "cntrl", "digit", "graph", "lower", "print", "punct",
   "space", "upper", "word", "xdigit"]

/-- Reads the name of a class after the opening bracket, and whether the class is turned round. -/
def namedClass? : List Char → Option (Bool × List Char)
  | ':' :: s =>
    let (isNegated, s) :=
      match s with
      | '^' :: s => (true, s)
      | s => (false, s)
    let name := s.takeWhile (· ≠ ':')
    match s.drop name.length with
    | ':' :: ']' :: s =>
      if classNames.contains (String.ofList name) then some (isNegated, s) else none
    | _ => none
  | _ => none

/-- Reads the mark at the front of a class that turns it round. -/
def classStart? (mode : Mode) (s : List Char) : Option (List Char) :=
  match skip mode s with
  | '^' :: s => if mode.unicode then some s else none
  | s => some s

/-- Where a reader stands in a class. A bracket that would close the class at its front stands for
itself, and so do all dashes there. -/
inductive ClassPlace where
  | front
  | dashes
  | inside
deriving DecidableEq, Repr

/-- Reads the items of a class up to its closing bracket. `left` is the depth of what stands before
the last sign for an operation on sets, and `items` holds the depths of the items after it. -/
def classItems? (fuel : Nat) (mode : Mode) (place : ClassPlace) (left : Option Nat)
    (items : List Nat) (s : List Char) : Option (Nat × List Char) :=
  match fuel with
  | 0 => none
  | fuel + 1 =>
    match place, skip mode s with
    | .front, '-' :: s => classItems? fuel mode .dashes left (0 :: items) s
    | .dashes, '-' :: s => classItems? fuel mode .dashes left (0 :: items) s
    | .front, ']' :: s => classItems? fuel mode .inside left (0 :: items) s
    | _, ']' :: s => some (1 + combined left items, s)
    | _, '&' :: '&' :: s => classItems? fuel mode .inside (some (combined left items)) [] s
    | _, '-' :: '-' :: s => classItems? fuel mode .inside (some (combined left items)) [] s
    | _, '~' :: '~' :: s => classItems? fuel mode .inside (some (combined left items)) [] s
    | _, '[' :: s =>
      match namedClass? s with
      | some (isNegated, s) =>
        if isNegated && !mode.unicode then none
        else classItems? fuel mode .inside left (0 :: items) s
      | none =>
        match (classStart? mode s).bind (classItems? fuel mode .front none []) with
        | some (depth, s) => classItems? fuel mode .inside left (depth :: items) s
        | none => none
    | _, s =>
      match classRange? mode s with
      | some s => classItems? fuel mode .inside left (0 :: items) s
      | none => none

/-- Reads a class after its opening bracket. -/
def class? (mode : Mode) (s : List Char) : Option (Nat × List Char) :=
  (classStart? mode s).bind (classItems? (s.length + 1) mode .front none [])

/-! ## Groups -/

/-- Reads settings up to the sign that ends them. A dash among them comes once and not last, and no
setting comes twice. -/
def settings? (before : List Char) : List Char → Option (List Char × Char × List Char)
  | [] => none
  | c :: s =>
    if c = ':' || c = ')' then
      if before.head? = some '-' then none else some (before.reverse, c, s)
    else if "imsUuRx-".toList.contains c && !before.contains c then settings? (c :: before) s
    else none

/-- What settings say about one of them: those after a dash are off. -/
def setting (settings : List Char) (name : Char) (unsaid : Bool) : Bool :=
  if (settings.takeWhile (· ≠ '-')).contains name then true
  else if settings.contains name then false
  else unsaid

/-- The mode under some settings. -/
def Mode.under (mode : Mode) (settings : List Char) : Mode :=
  ⟨setting settings 'x' mode.extended, setting settings 'u' mode.unicode⟩

/-- Reads the name of a group up to the angle after it. A name starts with a letter and is new. -/
def groupName? (names : List (List Char)) (s : List Char) : Option (List Char × List Char) :=
  let name := s.takeWhile (· ≠ '>')
  match name, s.drop name.length with
  | c :: later, '>' :: s =>
    let isNamed := (c = '_' || isLetter c) &&
      later.all fun c => c = '_' || c = '.' || c = '[' || c = ']' || isWordChar c
    if isNamed && !names.contains name then some (name, s) else none
  | _, _ => none

/-- What an opening parenthesis begins. -/
inductive Opening where
  | group (mode : Mode) (names : List (List Char))
  /-- Settings for what follows in the same group. -/
  | settings (mode : Mode)
deriving DecidableEq, Repr

/-- Reads what follows an opening parenthesis. The names are those of the groups before it. -/
def opening? (mode : Mode) (names : List (List Char)) (s : List Char) :
    Option (Opening × List Char) :=
  let named (s : List Char) :=
    (groupName? names s).map fun (name, s) => (Opening.group mode (name :: names), s)
  match skip mode s with
  | '?' :: 'P' :: '<' :: s => named s
  | '?' :: '<' :: s => named s
  | '?' :: s => do
    let (settings, sign, s) ← settings? [] s
    if sign = ':' then some (.group (mode.under settings) names, s)
    else if settings.isEmpty then none
    else some (.settings (mode.under settings), s)
  | s => some (.group mode names, s)

/-! ## Patterns -/

/-- What has been read of a group. -/
structure Draft where
  /-- The depths of the alternatives before the current one. -/
  earlier : List Nat := []
  /-- The depths of the parts of the current alternative, the last one first. A part is nothing if
  it cannot be repeated. -/
  parts : List (Option Nat) := []

namespace Draft

/-- The depth of the current alternative. -/
def current (d : Draft) : Nat := together (d.parts.map (·.getD 0))

/-- The depth of all that has been read. -/
def depth (d : Draft) : Nat := together (d.current :: d.earlier)

/-- The draft with a part more. -/
def add (d : Draft) (part : Option Nat) : Draft := { d with parts := part :: d.parts }

/-- The draft at the start of an alternative. -/
def branch (d : Draft) : Draft := ⟨d.current :: d.earlier, []⟩

/-- The draft with its last part repeated. -/
def repeat? (d : Draft) : Option Draft :=
  match d.parts with
  | some depth :: parts => some { d with parts := some (1 + depth) :: parts }
  | _ => none

end Draft

/-- Reads alternatives up to the end of their group, and gives their depth and the names of all
groups so far. -/
def alternatives? (fuel : Nat) (mode : Mode) (names : List (List Char)) (d : Draft)
    (s : List Char) : Option (Nat × List (List Char) × List Char) :=
  match fuel with
  | 0 => none
  | fuel + 1 =>
    match skip mode s with
    | [] => some (d.depth, names, [])
    | ')' :: s => some (d.depth, names, ')' :: s)
    | '|' :: s => alternatives? fuel mode names d.branch s
    | '(' :: s =>
      match opening? mode names s with
      | none => none
      | some (.settings mode, s) => alternatives? fuel mode names (d.add none) s
      | some (.group inner names, s) =>
        match alternatives? fuel inner names {} s with
        | some (depth, names, ')' :: s) =>
          alternatives? fuel mode names (d.add (some (1 + depth))) s
        | _ => none
    | '[' :: s =>
      match class? mode s with
      | none => none
      | some (depth, s) => alternatives? fuel mode names (d.add (some depth)) s
    | '\\' :: s =>
      match escape? mode s with
      | none => none
      | some (_, s) => alternatives? fuel mode names (d.add (some 0)) s
    | c :: s =>
      if c = '?' || c = '*' || c = '+' then
        match d.repeat? with
        | none => none
        | some d => alternatives? fuel mode names d (if s.head? = some '?' then s.tail else s)
      else if c = '\x7b' || (c = '.' && !mode.unicode) then none
      else alternatives? fuel mode names (d.add (some 0)) s

end Pattern

open Pattern in
/-- Whether the text is a regular expression. -/
def isPattern (s : List Char) : Bool :=
  match alternatives? (s.length + 1) {} [] {} s with
  | some (depth, _, []) => depth ≤ deepestNest
  | _ => false

example :
    (["", "^a$", "(?<n>a)", "a|*", "()*", "[]a]", "[^-a]", "[a&&[^b]]", "[[:alpha:]]", "[a--b]",
      "(?-u:\\b)", "(?x) a # (", "\\x41", "\\pL", "a**?", "[+--]", "\\.", "(?i)(?-i)"].map
      fun s => isPattern s.toList) =
    [true, true, true, false, true, true, true, true, true, true,
      true, true, true, true, true, true, true, true] := by decide +kernel

example :
    ["(", ")", "[z-a]", "\\", "\\q", "(?!a)", "(a)\\1", "a\x7b2", "(?-u)\\xff", "*", "(?)", "(?ii)",
      "(?i-)", "\\b", "(?-u).", "(?<n>a)(?<n>b)", "[a", "[]", "\\pQ", "(?i)*", "[\\b]"].all
      fun s => !isPattern s.toList := by decide +kernel

end Stevedore.Text
