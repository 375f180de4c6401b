import Stevedore.Text.Blank

/-!
Splitting a command into its words, as a shell does it for plain words: blanks separate words,
single quotes keep everything, double quotes keep everything but a backslash before a quote, a
backslash, a dollar sign or a backtick, and a backslash outside quotes keeps the next character.
-/

namespace Stevedore.Command

/-- How the next character is read. -/
inductive Mode where
  | bare
  /-- After a backslash outside quotes. -/
  | bareEscape
  | single
  | double
  /-- After a backslash inside double quotes. -/
  | doubleEscape
deriving DecidableEq, Repr

/-- The two kinds of quotes. -/
inductive Quote where
  | single
  | double
deriving DecidableEq, Repr

/-- Why a command has no words: it ends too early. -/
inductive Unfinished where
  | quote (quote : Quote)
  | escape
deriving DecidableEq, Repr

/-- Whether a backslash inside double quotes is dropped before `c`. -/
def isEscapable (c : Char) : Bool := c = '"' || c = '\\' || c = '$' || c = '\x60'

/-- The word that has been read, with `c` put to its end. A word is kept back to front. -/
def extend (word : Option (List Char)) (c : Char) : Option (List Char) :=
  some (c :: word.getD [])

/-- The words of the text, the first of which has been begun if `word` is there. -/
def wordsFrom : Mode → Option (List Char) → List Char → Except Unfinished (List String)
  | .bare, word, [] => .ok (word.toList.map fun w => String.ofList w.reverse)
  | .bareEscape, _, [] => .error .escape
  | .single, _, [] => .error (.quote .single)
  | .double, _, [] => .error (.quote .double)
  | .doubleEscape, _, [] => .error (.quote .double)
  | .bare, word, c :: s =>
    if Text.isBlank c then
      match word with
      | none => wordsFrom .bare none s
      | some w => (wordsFrom .bare none s).map (String.ofList w.reverse :: ·)
    else if c = '\'' then wordsFrom .single (some (word.getD [])) s
    else if c = '"' then wordsFrom .double (some (word.getD [])) s
    else if c = '\\' then wordsFrom .bareEscape word s
    else wordsFrom .bare (extend word c) s
  | .bareEscape, word, c :: s => wordsFrom .bare (extend word c) s
  | .single, word, c :: s =>
    if c = '\'' then wordsFrom .bare word s else wordsFrom .single (extend word c) s
  | .double, word, c :: s =>
    if c = '"' then wordsFrom .bare word s
    else if c = '\\' then wordsFrom .doubleEscape word s
    else wordsFrom .double (extend word c) s
  | .doubleEscape, word, c :: s =>
    if isEscapable c then wordsFrom .double (extend word c) s
    else wordsFrom .double (extend (extend word '\\') c) s

/-- The words of a command. -/
def words (command : String) : Except Unfinished (List String) :=
  wordsFrom .bare none command.toList

/-- Why a command has no words, in words. -/
def Unfinished.message (command : String) : Unfinished → String
  | .quote .single =>
    s!"Command \x60{command}\x60 is invalid: it contains an unbalanced single quote."
  | .quote .double =>
    s!"Command \x60{command}\x60 is invalid: it contains an unbalanced double quote."
  | .escape => s!"Command \x60{command}\x60 is invalid: it ends with a dangling backslash."

end Stevedore.Command
