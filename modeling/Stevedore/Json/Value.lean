/-!
JSON values. A number stays the text that it is written as. A text may be written with an unpaired
surrogate, which no character stands for; then it has no value, and only a reader who wants it will
mind.
-/

namespace Stevedore.Json

/-- A text in a document, if characters can make it up. -/
abbrev TextValue := Option String

/-- A value of a document. Names in an object may repeat, and stand as they are written. -/
inductive Value where
  | null
  | boolean (b : Bool)
  | number (literal : String)
  | text (t : TextValue)
  | array (items : List Value)
  | object (entries : List (TextValue × Value))

end Stevedore.Json
