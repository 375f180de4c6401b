import Stevedore.Proofs.Splitting

/-!
Splitting a command by loops.

The words of a command are read one character after the other, in five modes (`wordsFrom`). They can
also be read by a loop that goes from word to word and hands a quoted run over to a loop of its own,
which looks for the closing quote and gives back what is left behind it (`Held.read`). Such a loop
reads as much as the modes of its quotes do (`wordsFrom_single_eq`, `wordsFrom_double_eq`), so both
ways split every command alike (`words_eq_read`).

The outer loop keeps the word that it is in, and beside it whether it is in one, since a word may be
empty. Where it is in none, it keeps no text either. That is what makes its state a state of the
modes (`Held.word`).
-/

namespace Stevedore.Command

variable {s rest : List Char} {current current' : String}

/-! ## Inside quotes -/

/-- Reads on to the closing single quote: the word so far, and what is left. -/
def readSingle (current : String) : List Char → Except Unfinished (String × List Char)
  | [] => .error (.quote .single)
  | c :: s => if c = '\'' then .ok (current, s) else readSingle (current.push c) s

/-- Reads on to the closing double quote. -/
def readDouble (current : String) : List Char → Except Unfinished (String × List Char)
  | [] => .error (.quote .double)
  | c :: s =>
    if c = '"' then .ok (current, s)
    else if c = '\\' then
      match s with
      | [] => .error (.quote .double)
      | escaped :: s =>
        if isEscapable escaped then readDouble (current.push escaped) s
        else readDouble ((current.push '\\').push escaped) s
    else readDouble (current.push c) s

/-- The word back to front, as it is kept by the modes. -/
def backwards (word : String) : List Char := word.toList.reverse

theorem backwards_push (word : String) (c : Char) :
    backwards (word.push c) = c :: backwards word := by
  simp [backwards]

theorem extend_backwards (word : String) (c : Char) :
    extend (some (backwards word)) c = some (backwards (word.push c)) := by
  rw [extend, Option.getD_some, backwards_push]

/-- Inside single quotes the modes read what the loop reads. -/
theorem wordsFrom_single_eq (word : String) (s : List Char) :
    wordsFrom .single (some (backwards word)) s =
      (readSingle word s).bind fun r => wordsFrom .bare (some (backwards r.1)) r.2 := by
  induction s generalizing word with
  | nil => rfl
  | cons c s ih =>
    rw [wordsFrom, readSingle]
    split
    · rfl
    · rw [extend_backwards, ih]

/-- And so they do inside double quotes. -/
theorem wordsFrom_double_eq (word : String) (s : List Char) :
    wordsFrom .double (some (backwards word)) s =
      (readDouble word s).bind fun r => wordsFrom .bare (some (backwards r.1)) r.2 := by
  fun_induction readDouble word s with
  | case1 => rfl
  | case2 => rfl
  | case3 => rfl
  | case4 word escaped s hescapable _ ih =>
    rw [← ih, wordsFrom, if_neg (by decide), if_pos rfl, wordsFrom, if_pos hescapable,
      extend_backwards]
  | case5 word escaped s hescapable _ ih =>
    rw [← ih, wordsFrom, if_neg (by decide), if_pos rfl, wordsFrom, if_neg hescapable,
      extend_backwards, extend_backwards]
  | case6 word c s hquote hescape ih =>
    rw [← ih, wordsFrom, if_neg hquote, if_neg hescape, extend_backwards]

/-! ## From word to word -/

theorem length_le_of_readSingle (h : readSingle current s = .ok (current', rest)) :
    rest.length ≤ s.length := by
  induction s generalizing current with
  | nil => cases h
  | cons c s ih =>
    rw [readSingle] at h
    split at h
    · cases h
      exact Nat.le_succ _
    · exact Nat.le_succ_of_le (ih h)

theorem length_le_of_readDouble (h : readDouble current s = .ok (current', rest)) :
    rest.length ≤ s.length := by
  fun_induction readDouble current s with
  | case1 => cases h
  | case2 =>
    cases h
    exact Nat.le_succ _
  | case3 => cases h
  | case4 _ _ _ _ _ ih => exact Nat.le_succ_of_le (Nat.le_succ_of_le (ih h))
  | case5 _ _ _ _ _ ih => exact Nat.le_succ_of_le (Nat.le_succ_of_le (ih h))
  | case6 _ _ _ _ _ ih => exact Nat.le_succ_of_le (ih h)

/-- What the outer loop keeps: the words it has read, and the word that it is in, if it is in
one. -/
structure Held where
  args : List String := []
  current : String := ""
  inWord : Bool := false
  /-- Between words there is no text of a word. -/
  between : inWord = false → current = "" := by simp

namespace Held

/-- In a word that goes so far. -/
def into (held : Held) (current : String) : Held where
  args := held.args
  current := current
  inWord := true

/-- The word that the loop is in is finished, if it is in one. -/
def finish (held : Held) : Held :=
  if held.inWord then { args := held.args ++ [held.current] } else held

/-- Reads on from word to word. -/
def read (held : Held) (s : List Char) : Except Unfinished (List String) :=
  match s with
  | [] => .ok held.finish.args
  | c :: s =>
    if Text.isBlank c then held.finish.read s
    else if c = '\'' then
      match _h : readSingle held.current s with
      | .error problem => .error problem
      | .ok (current, rest) => (held.into current).read rest
    else if c = '"' then
      match _h : readDouble held.current s with
      | .error problem => .error problem
      | .ok (current, rest) => (held.into current).read rest
    else if c = '\\' then
      match s with
      | [] => .error .escape
      | escaped :: s => (held.into (held.current.push escaped)).read s
    else (held.into (held.current.push c)).read s
termination_by s.length
decreasing_by
  · exact Nat.lt_succ_self _
  · exact Nat.lt_succ_of_le (length_le_of_readSingle _h)
  · exact Nat.lt_succ_of_le (length_le_of_readDouble _h)
  · exact Nat.lt_succ_of_le (Nat.le_succ _)
  · exact Nat.lt_succ_self _

/-- The word that the loop is in, as it is kept by the modes. -/
def word (held : Held) : Option (List Char) :=
  if held.inWord then some (backwards held.current) else none

theorem word_getD (held : Held) : held.word.getD [] = backwards held.current := by
  unfold word
  split
  · rfl
  · next h =>
    rw [held.between (by simpa using h)]
    rfl

theorem word_into (held : Held) (current : String) :
    (held.into current).word = some (backwards current) := rfl

theorem extend_word (held : Held) (c : Char) :
    extend held.word c = (held.into (held.current.push c)).word := by
  rw [extend, word_getD, word_into, backwards_push]

theorem word_finish (held : Held) : held.finish.word = none := by
  unfold finish
  split
  · rfl
  · next h => exact if_neg h

theorem args_finish (held : Held) :
    held.finish.args = held.args ++ held.word.toList.map fun w => String.ofList w.reverse := by
  unfold finish word
  split <;> simp [backwards]

/-! A character outside quotes, as the outer loop takes it. -/

theorem wordsFrom_opened (held : Held) (s : List Char) :
    wordsFrom .bare held.word ('\'' :: s) =
      (readSingle held.current s).bind fun r => wordsFrom .bare (held.into r.1).word r.2 := by
  rw [wordsFrom_of_not_blank (by decide), if_pos rfl, word_getD, wordsFrom_single_eq]
  rfl

theorem wordsFrom_openedDouble (held : Held) (s : List Char) :
    wordsFrom .bare held.word ('"' :: s) =
      (readDouble held.current s).bind fun r => wordsFrom .bare (held.into r.1).word r.2 := by
  rw [wordsFrom_of_not_blank (by decide), if_neg (by decide), if_pos rfl, word_getD,
    wordsFrom_double_eq]
  rfl

theorem wordsFrom_escaped (held : Held) (s : List Char) :
    wordsFrom .bare held.word ('\\' :: s) = wordsFrom .bareEscape held.word s := by
  rw [wordsFrom_of_not_blank (by decide), if_neg (by decide), if_neg (by decide), if_pos rfl]

/-- The outer loop reads what the modes read. -/
theorem read_eq (held : Held) (s : List Char) :
    held.read s = (wordsFrom .bare held.word s).map (held.args ++ ·) := by
  fun_induction read held s with
  | case1 held =>
    rw [args_finish]
    rfl
  | case2 held c s hblank ih =>
    rw [ih, word_finish, args_finish, wordsFrom_of_isBlank hblank]
    cases wordsFrom .bare none s <;> simp [Except.map]
  | case3 held s problem hread =>
    rw [wordsFrom_opened, hread]
    rfl
  | case4 held s current rest hread _ ih =>
    rw [ih, wordsFrom_opened, hread]
    rfl
  | case5 held s problem hread =>
    rw [wordsFrom_openedDouble, hread]
    rfl
  | case6 held s current rest hread _ _ ih =>
    rw [ih, wordsFrom_openedDouble, hread]
    rfl
  | case7 held =>
    rw [wordsFrom_escaped]
    rfl
  | case8 held c s _ _ _ ih =>
    rw [ih, wordsFrom_escaped, wordsFrom, extend_word]
    rfl
  | case9 held c s hblank hsingle hdouble hescape ih =>
    rw [Bool.not_eq_true] at hblank
    rw [ih, wordsFrom_of_not_blank hblank, if_neg hsingle, if_neg hdouble, if_neg hescape,
      extend_word]
    rfl

end Held

/-- **Modes and loops split a command alike.** -/
theorem words_eq_read (command : String) : words command = Held.read {} command.toList := by
  rw [Held.read_eq]
  show words command = (words command).map ([] ++ ·)
  cases words command <;> rfl

end Stevedore.Command
