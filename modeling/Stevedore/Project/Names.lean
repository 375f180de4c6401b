import Stevedore.Text.Blank

/-!
The names that an engine accepts. The names of projects and containers become part of image tags,
so they are written like one component of an image reference: words of lower case letters and
digits with separators between them. A cache name becomes part of a volume's name.

`isReferenceName` runs a small automaton over the name, one state per way the name may go on.
-/

namespace Stevedore

/-- Lower case letters and digits make up the words of a name. -/
def isWordChar (c : Char) : Bool := c.isLower || c.isDigit

/-- What has been read of a name. -/
inductive NameState where
  | start
  /-- Inside a word; the name may end here. -/
  | word
  | afterPeriod
  | afterUnderscore
  | afterTwoUnderscores
  | afterDashes
deriving DecidableEq, Repr

/-- Reads one more character of a name, if it may stand there. -/
def NameState.next (state : NameState) (c : Char) : Option NameState :=
  if isWordChar c then some .word
  else
    match state, c with
    | .word, '.' => some .afterPeriod
    | .word, '_' => some .afterUnderscore
    | .afterUnderscore, '_' => some .afterTwoUnderscores
    | .word, '-' => some .afterDashes
    | .afterDashes, '-' => some .afterDashes
    | _, _ => none

/-- Reads the rest of a name. -/
def NameState.read : NameState → List Char → Option NameState
  | state, [] => some state
  | state, c :: rest => (state.next c).bind fun state => state.read rest

/-- Whether `name` may stand in an image tag: words with single periods, one or two underscores or
any number of dashes between them. -/
def isReferenceName (name : String) : Bool :=
  NameState.start.read name.toList = some .word

/-- Letters, digits and three marks make up the name of a volume. -/
def isVolumeChar (c : Char) : Bool := c.isAlphanum || c = '_' || c = '.' || c = '-'

/-- Whether `name` may name a volume. -/
def isVolumeName (name : String) : Bool :=
  match name.toList with
  | [] => false
  | c :: rest => c.isAlphanum && rest.all isVolumeChar

example : isReferenceName "my-shop_2.0" ∧ isReferenceName "a__b--c" ∧ ¬ isReferenceName "a___b" ∧
    ¬ isReferenceName "a-.b" ∧ ¬ isReferenceName "" ∧ ¬ isReferenceName "a." := by decide

end Stevedore
