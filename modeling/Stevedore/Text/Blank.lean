/-!
White space: the characters that separate words and are dropped around a text. The set is the
`White_Space` property of Unicode, so it holds the no-break and ideographic spaces and the line
separators, and leaves out the zero-width space.
-/

namespace Stevedore.Text

/-- The ranges of the white space characters. -/
def blankRanges : List (Nat × Nat) :=
  [(0x09, 0x0D), (0x20, 0x20), (0x85, 0x85), (0xA0, 0xA0), (0x1680, 0x1680), (0x2000, 0x200A),
   (0x2028, 0x2029), (0x202F, 0x202F), (0x205F, 0x205F), (0x3000, 0x3000)]

/-- Whether `c` is white space. -/
def isBlank (c : Char) : Bool :=
  blankRanges.any fun r => r.1 ≤ c.toNat && c.toNat ≤ r.2

/-- Drops white space at the front. -/
def dropBlankFront (s : List Char) : List Char := s.dropWhile isBlank

/-- Drops white space at the back. -/
def dropBlankBack (s : List Char) : List Char := (s.reverse.dropWhile isBlank).reverse

/-- Drops white space at both ends. -/
def trimChars (s : List Char) : List Char := dropBlankBack (dropBlankFront s)

/-- The text without white space at either end. -/
def trim (s : String) : String := String.ofList (trimChars s.toList)

/-- The text without white space at its end. -/
def trimEnd (s : String) : String := String.ofList (dropBlankBack s.toList)

/-- Whether the text holds nothing but white space. -/
def isBlankText (s : String) : Bool := s.toList.all isBlank

example : isBlank '\u3000' ∧ isBlank '\u0085' ∧ ¬ isBlank '\u200b' ∧ ¬ isBlank '\u001c' := by decide

/-- Trimming adds nothing. -/
theorem mem_of_mem_trim {c : Char} {s : String} (h : c ∈ (trim s).toList) : c ∈ s.toList := by
  rw [trim, String.toList_ofList, trimChars, dropBlankBack, List.mem_reverse] at h
  have hfront : c ∈ dropBlankFront s.toList :=
    List.mem_reverse.1 ((List.dropWhile_sublist _).subset h)
  exact (List.dropWhile_sublist _).subset hfront

end Stevedore.Text
