/-!
Parts of a text by the number of bytes that their characters take in UTF-8. A part that would end
within a character is none. What is taken from the front of a text and what is left of it are the
text (`takeBytes?_append_dropBytes?`).
-/

namespace Stevedore.Text

/-- A text without its first `n` bytes. -/
def dropBytes? : List Char → Nat → Option (List Char)
  | s, 0 => some s
  | [], _ + 1 => none
  | c :: s, n + 1 => if n + 1 < c.utf8Size then none else dropBytes? s (n + 1 - c.utf8Size)

/-- The first `n` bytes of a text. -/
def takeBytes? : List Char → Nat → Option (List Char)
  | _, 0 => some []
  | [], _ + 1 => none
  | c :: s, n + 1 =>
    if n + 1 < c.utf8Size then none else (takeBytes? s (n + 1 - c.utf8Size)).map (c :: ·)

/-- The part of a text between two positions, which count bytes. -/
def slice? (s : List Char) (start stop : Nat) : Option (List Char) :=
  (dropBytes? s start).bind fun s => takeBytes? s (stop - start)

theorem takeBytes?_append_dropBytes? {s front back : List Char} {n : Nat}
    (hf : takeBytes? s n = some front) (hb : dropBytes? s n = some back) : front ++ back = s := by
  fun_induction takeBytes? s n generalizing front back with
  | case1 s => simp_all [dropBytes?]
  | case2 n => simp at hf
  | case3 c s n h => simp at hf
  | case4 c s n h ih =>
    obtain ⟨rest, hr, rfl⟩ := Option.map_eq_some_iff.1 hf
    rw [dropBytes?, if_neg h] at hb
    simp [ih hr hb]

/-- A text is cut in two places at once: both parts are there or neither is. -/
theorem isSome_takeBytes? (s : List Char) (n : Nat) :
    (takeBytes? s n).isSome = (dropBytes? s n).isSome := by
  fun_induction takeBytes? s n with
  | case1 s => cases s <;> rfl
  | case2 n => rfl
  | case3 c s n h => simp [dropBytes?, h]
  | case4 c s n h ih => simp [dropBytes?, h, ih]

example : slice? "aé漢b".toList 1 6 = some "é漢".toList ∧ slice? "aé".toList 0 2 = none := by decide

end Stevedore.Text
