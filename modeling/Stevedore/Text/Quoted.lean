import Stevedore.Text.Unseen

/-!
Texts quoted for a reader: in double quotes, with a backslash before a quote and a backslash, short
forms for the common control characters, and the code point in hexadecimal for the characters that
would not show.
-/

namespace Stevedore.Text

/-- The lower case hexadecimal digits of `n`, without leading zeros. -/
def hexDigits (n : Nat) : String := String.ofList (Nat.toDigits 16 n)

/-- How one character stands inside quotes. -/
def quoteChar (c : Char) : String :=
  if c = '"' then "\\\""
  else if c = '\\' then "\\\\"
  else if c = '\n' then "\\n"
  else if c = '\r' then "\\r"
  else if c = '\t' then "\\t"
  else if c.toNat = 0 then "\\0"
  else if isUnseen c then "\\u\x7b" ++ hexDigits c.toNat ++ "\x7d"
  else c.toString

/-- The text in quotes. -/
def quoted (s : String) : String :=
  "\"" ++ String.join (s.toList.map quoteChar) ++ "\""

/-- The texts in quotes, in braces. -/
def quotedSet (l : List String) : String :=
  "\x7b" ++ ", ".intercalate (l.map quoted) ++ "\x7d"

end Stevedore.Text
