import Stevedore.Toml.Scalar

/-!
Reading a TOML document (version 1.1).

The text is a list of characters, and every reader gives back what it read together with what is
left. Arrays and inline tables contain values, so their readers share one measure, the fuel, which
`line?` computes from the length of the text: at most three calls stand between two characters.
-/

namespace Stevedore.Toml

/-- A reader: a value and the rest of the text, or nothing if the text is malformed. -/
abbrev Reader (α : Type) := List Char → Option (α × List Char)

/-! ## Characters -/

/-- Controls other than the tab stand nowhere in a document. -/
def isPlain (c : Char) : Bool := c = '\t' || (c.toNat ≥ 0x20 && c.toNat ≠ 0x7F)

def isBareKey (c : Char) : Bool := c.isAlphanum || c = '_' || c = '-'

/-- Drops tabs and spaces. -/
def dropSpaces (s : List Char) : List Char := s.dropWhile fun c => c = ' ' || c = '\t'

/-- Reads one line end. -/
def lineEnd? : List Char → Option (List Char)
  | '\n' :: s => some s
  | '\r' :: '\n' :: s => some s
  | _ => none

/-- Drops a comment, if one starts here. -/
def dropComment : List Char → List Char
  | '#' :: s => s.dropWhile isPlain
  | s => s

/-- Drops spaces, comments and line ends. A comment goes to the end of its line. -/
def dropLayout : Bool → List Char → List Char
  | _, '\n' :: s => dropLayout false s
  | _, '\r' :: '\n' :: s => dropLayout false s
  | inComment, c :: s =>
    if inComment then (if isPlain c then dropLayout true s else c :: s)
    else if c = ' ' || c = '\t' then dropLayout false s
    else if c = '#' then dropLayout true s
    else c :: s
  | _, [] => []

/-- The rest of a line after its content: spaces, a comment, and the line end or the end of the
document. -/
def lineRest? (s : List Char) : Option (List Char) :=
  match dropComment (dropSpaces s) with
  | [] => some []
  | s => lineEnd? s

/-! ## Strings -/

/-- The character of a code point that is a Unicode scalar value. -/
def scalarValue? (n : Nat) : Option Char :=
  if n.isValidChar then some (Char.ofNat n) else none

/-- Reads exactly `n` hexadecimal digits. -/
def hexDigits? : Nat → Nat → Reader Nat
  | 0, value, s => some (value, s)
  | n + 1, value, c :: s =>
    (Text.hexDigit? c).bind fun digit => hexDigits? n (16 * value + digit) s
  | _ + 1, _, [] => none

/-- Reads what follows a backslash and stands for one character. -/
def escape? : Reader Char
  | 'b' :: s => some ('\x08', s)
  | 't' :: s => some ('\t', s)
  | 'n' :: s => some ('\n', s)
  | 'f' :: s => some ('\x0c', s)
  | 'r' :: s => some ('\r', s)
  | 'e' :: s => some ('\x1b', s)
  | '"' :: s => some ('"', s)
  | '\\' :: s => some ('\\', s)
  | 'x' :: s => do
    let (n, s) ← hexDigits? 2 0 s
    return (← scalarValue? n, s)
  | 'u' :: s => do
    let (n, s) ← hexDigits? 4 0 s
    return (← scalarValue? n, s)
  | 'U' :: s => do
    let (n, s) ← hexDigits? 8 0 s
    return (← scalarValue? n, s)
  | _ => none

/-- Reads a string on one line, after its opening quote, up to the closing one. -/
def lineString? (quote : Char) (escapes : Bool) : Nat → Reader (List Char)
  | 0, _ => none
  | _ + 1, [] => none
  | fuel + 1, c :: s =>
    if c = quote then some ([], s)
    else if c = '\\' && escapes then do
      let (e, s) ← escape? s
      let (text, s) ← lineString? quote escapes fuel s
      return (e :: text, s)
    else if isPlain c then do
      let (text, s) ← lineString? quote escapes fuel s
      return (c :: text, s)
    else none

/-- Drops spaces and line ends. -/
def dropBlankLines : List Char → List Char
  | '\r' :: '\n' :: s => dropBlankLines s
  | c :: s => if c = ' ' || c = '\t' || c = '\n' then dropBlankLines s else c :: s
  | [] => []

/-- After a backslash at the end of a line: drops the line end and all white space after it. -/
def dropFold (s : List Char) : Option (List Char) :=
  (lineEnd? (dropSpaces s)).map dropBlankLines

/-- The closing quotes of a string over several lines: three of them, after at most two that belong
to the string. -/
def closing? (quote : Char) (s : List Char) : Option (List Char × List Char) :=
  let quotes := s.takeWhile (· = quote)
  if 3 ≤ quotes.length then
    let own := min (quotes.length - 3) 2
    some (List.replicate own quote, s.drop (own + 3))
  else none

/-- Reads a string over several lines, after its opening quotes, up to the closing ones. -/
def blockString? (quote : Char) (escapes : Bool) : Nat → Reader (List Char)
  | 0, _ => none
  | _ + 1, [] => none
  | fuel + 1, c :: s =>
    match closing? quote (c :: s) with
    | some (own, rest) => some (own, rest)
    | none =>
      if c = '\\' && escapes then
        match escape? s with
        | some (e, s) => do
          let (text, s) ← blockString? quote escapes fuel s
          return (e :: text, s)
        | none => do
          let s ← dropFold s
          blockString? quote escapes fuel s
      else if isPlain c || c = '\n' then do
        let (text, s) ← blockString? quote escapes fuel s
        return (c :: text, s)
      else if c = '\r' && s.head? = some '\n' then do
        let (text, s) ← blockString? quote escapes fuel s
        return (c :: text, s)
      else none

/-- Drops the line end that directly follows the opening quotes of a string over several lines. -/
def dropFirstLineEnd (s : List Char) : List Char := (lineEnd? s).getD s

/-- Reads a string of one of the four kinds. -/
def string? (s : List Char) : Option (String × List Char) := do
  let fuel := s.length + 1
  let (text, rest) ←
    match s with
    | '"' :: '"' :: '"' :: s => blockString? '"' true fuel (dropFirstLineEnd s)
    | '\'' :: '\'' :: '\'' :: s => blockString? '\'' false fuel (dropFirstLineEnd s)
    | '"' :: s => lineString? '"' true fuel s
    | '\'' :: s => lineString? '\'' false fuel s
    | _ => none
  return (String.ofList text, rest)

/-! ## Keys -/

/-- Reads one key: bare, or a string on one line. -/
def simpleKey? : Reader String
  | '"' :: s => do
    let (text, s) ← lineString? '"' true (s.length + 1) s
    return (String.ofList text, s)
  | '\'' :: s => do
    let (text, s) ← lineString? '\'' false (s.length + 1) s
    return (String.ofList text, s)
  | s =>
    match s.takeWhile isBareKey with
    | [] => none
    | key => some (String.ofList key, s.drop key.length)

/-- Reads keys with dots between them, and the spaces after the last. -/
def keys? : Nat → Reader (List String)
  | 0, _ => none
  | fuel + 1, s => do
    let (first, s) ← simpleKey? (dropSpaces s)
    match dropSpaces s with
    | '.' :: s =>
      let (more, s) ← keys? fuel s
      return (first :: more, s)
    | s => return ([first], s)

/-- Tables, arrays and inline tables nest at most this deep. -/
def deepest : Nat := 80

/-- Reads the keys in front of a value or in a header. -/
def key? (s : List Char) : Option (List String × List Char) := do
  let (keys, s) ← keys? (s.length + 1) s
  if keys.length ≤ deepest then return (keys, s) else none

/-- The last of the keys, with those before it. -/
def splitKey : List String → List String × String
  | [] => ([], "")
  | [k] => ([], k)
  | k :: ks => let (path, last) := splitKey ks; (k :: path, last)

/-! ## Values -/

def isScalarChar (c : Char) : Bool :=
  c.isAlphanum || c = '+' || c = '-' || c = '.' || c = '_' || c = ':'

/-- Cuts out the characters of an unquoted scalar. A single space belongs to it where it stands
between a date and a time. -/
def scalarRun (s : List Char) : List Char × List Char :=
  let run := s.takeWhile isScalarChar
  let rest := s.drop run.length
  match rest with
  | ' ' :: c :: later =>
    if c.isDigit && (Date.read? run).any (·.2.isEmpty) then
      let time := (c :: later).takeWhile isScalarChar
      (run ++ ' ' :: time, (c :: later).drop time.length)
    else (run, rest)
  | rest => (run, rest)

mutual

/-- Reads a value inside `depth` arrays and inline tables. -/
def value? (fuel : Nat) (depth : Nat) (s : List Char) : Option (Value × List Char) :=
  match fuel with
  | 0 => none
  | fuel + 1 =>
    match s with
    | '"' :: _ => (string? s).map fun (text, s) => (.string text, s)
    | '\'' :: _ => (string? s).map fun (text, s) => (.string text, s)
    | '[' :: s =>
      if depth < deepest then
        (items? fuel (depth + 1) (dropLayout false s)).map fun (items, s) =>
          (.array items, s)
      else none
    | '\x7b' :: s =>
      if depth < deepest then
        (fields? fuel (depth + 1) [] (dropLayout false s)).map fun (fields, s) =>
          (.table (entryValues fields), s)
      else none
    | s =>
      let (run, rest) := scalarRun s
      (scalar? run).map fun v => (v, rest)

/-- Reads the items of an array up to its closing bracket. A comma may follow the last one. -/
def items? (fuel : Nat) (depth : Nat) (s : List Char) : Option (List Value × List Char) :=
  match fuel with
  | 0 => none
  | fuel + 1 =>
    match s with
    | ']' :: s => some ([], s)
    | s =>
      match value? fuel depth s with
      | none => none
      | some (item, s) =>
        match dropLayout false s with
        | ',' :: s =>
          (items? fuel depth (dropLayout false s)).map fun (items, s) =>
            (item :: items, s)
        | ']' :: s => some ([item], s)
        | _ => none

/-- Reads the bindings of an inline table up to its closing brace. A comma may follow the last
one, and lines may end wherever spaces may stand. -/
def fields? (fuel : Nat) (depth : Nat) (entries : Entries) (s : List Char) :
    Option (Entries × List Char) :=
  match fuel with
  | 0 => none
  | fuel + 1 =>
    match s with
    | '\x7d' :: s => some (entries, s)
    | s =>
      match binding? fuel depth entries s with
      | none => none
      | some (entries, s) =>
        match dropLayout false s with
        | ',' :: s => fields? fuel depth entries (dropLayout false s)
        | '\x7d' :: s => some (entries, s)
        | _ => none

/-- Reads one binding of an inline table. -/
def binding? (fuel : Nat) (depth : Nat) (entries : Entries) (s : List Char) :
    Option (Entries × List Char) :=
  match fuel with
  | 0 => none
  | fuel + 1 =>
    match key? s with
    | none => none
    | some (keys, s) =>
      match dropLayout false s with
      | '=' :: s =>
        match value? fuel depth (dropLayout false s) with
        | none => none
        | some (v, s) =>
          let (path, last) := splitKey keys
          (Entries.bindDotted last v path true entries).map fun entries => (entries, s)
      | _ => none

end

/-! ## Documents -/

/-- Reads the keys of a header up to its closing brackets. -/
def headerKeys? (brackets : List Char) (s : List Char) : Option (List String × List Char) := do
  let (keys, s) ← key? s
  if brackets.isPrefixOf s then return (keys, s.drop brackets.length) else none

/-- Reads one line with content: a header, which gives the table for the lines after it, or a
binding in the table `current`. -/
def line? (current : List String) (root : Entries) :
    List Char → Option ((List String × Entries) × List Char)
  | '[' :: '[' :: s => do
    let (keys, s) ← headerKeys? [']', ']'] s
    let (path, last) := splitKey keys
    let root ← Entries.alterBelow (Entries.declareNext last) path root
    return ((keys, root), s)
  | '[' :: s => do
    let (keys, s) ← headerKeys? [']'] s
    let (path, last) := splitKey keys
    let root ← Entries.alterBelow (Entries.declare last) path root
    return ((keys, root), s)
  | s => do
    let (keys, s) ← key? s
    let s ← character? '=' s
    let (v, s) ← value? (3 * s.length + 3) 0 (dropSpaces s)
    let (path, last) := splitKey keys
    let root ← Entries.alterBelow (Entries.bindDotted last v path true) current root
    return ((current, root), s)

/-- Reads lines up to the end of the document. -/
def lines? : Nat → List String → Entries → List Char → Option Entries
  | 0, _, _, _ => none
  | fuel + 1, current, root, s =>
    match dropLayout false s with
    | [] => some root
    | s =>
      match line? current root s with
      | none => none
      | some ((current, root), s) =>
        match lineRest? s with
        | none => none
        | some s => lines? fuel current root s

/-- The table of a document, or nothing if it is not well formed. -/
def document? (text : String) : Option (List (String × Value)) :=
  let s := text.toList
  let s := if s.head? = some '\ufeff' then s.drop 1 else s
  (lines? (s.length + 1) [] [] s).map entryValues

end Stevedore.Toml
