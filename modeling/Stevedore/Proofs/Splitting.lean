import Stevedore.Command

/-!
How commands are split into words.

Whoever writes a command may put any part of a word into single quotes, into double quotes, behind a
backslash, or down as it is (`Piece`), and any blanks between the words (`Line`). Whichever way was
taken, the command is split into the arguments that were meant (`words_written`).

The modes can be followed without regard to the words (`exists_wordsFrom_eq_map`), and they alone
decide whether a command is split at all: it is, unless its last mode waits for something
(`heedsMode`). A finished command has no word that goes on behind the next blank, so what stands
there is split as if it stood alone (`wordsFrom_append`). That is also how one word comes apart from
the next.
-/

namespace Stevedore.Command

variable {c : Char} {run s blanks rest w : List Char} {word : Option (List Char)} {mode : Mode}
  {problem : Unfinished} {args : List String}

/-! ## Outside quotes -/

/-- A blank outside quotes ends the word that has been begun, if any. -/
theorem wordsFrom_of_isBlank (hc : Text.isBlank c = true) :
    wordsFrom .bare word (c :: rest) =
      (wordsFrom .bare none rest).map
        ((word.toList.map fun w => String.ofList w.reverse) ++ ·) := by
  rw [wordsFrom.eq_def]
  dsimp only
  rw [if_pos hc]
  cases word with
  | none => cases wordsFrom .bare none rest <;> rfl
  | some w => rfl

/-- Any other character belongs to a word. -/
theorem wordsFrom_of_not_blank (hc : Text.isBlank c = false) :
    wordsFrom .bare word (c :: rest) =
      if c = '\'' then wordsFrom .single (some (word.getD [])) rest
      else if c = '"' then wordsFrom .double (some (word.getD [])) rest
      else if c = '\\' then wordsFrom .bareEscape word rest
      else wordsFrom .bare (extend word c) rest := by
  rw [wordsFrom.eq_def]
  dsimp only
  rw [hc]
  rfl

/-! ## One character -/

/-- How the character behind `c` is read. -/
def Mode.next : Mode → Char → Mode
  | bare, c =>
    if c = '\'' then single else if c = '"' then double else if c = '\\' then bareEscape else bare
  | bareEscape, _ => bare
  | single, c => if c = '\'' then bare else single
  | double, c => if c = '"' then bare else if c = '\\' then doubleEscape else double
  | doubleEscape, _ => double

/-- A blank outside quotes leaves the mode as it is. -/
theorem Mode.next_bare_of_isBlank (hc : Text.isBlank c = true) : Mode.bare.next c = .bare := by
  have hne : ∀ d, Text.isBlank d = false → c ≠ d := by
    rintro d hd rfl
    exact Bool.noConfusion (hc.symm.trans hd)
  simp only [next, if_neg (hne '\'' (by decide)), if_neg (hne '"' (by decide)),
    if_neg (hne '\\' (by decide))]

/-- But for a blank outside quotes, no character finishes a word. -/
theorem exists_wordsFrom_eq (word : Option (List Char))
    (h : mode = .bare → Text.isBlank c = false) :
    ∃ word', ∀ rest, wordsFrom mode word (c :: rest) = wordsFrom (mode.next c) word' rest := by
  cases mode with
  | bare =>
    simp only [wordsFrom_of_not_blank (h rfl), Mode.next]
    split
    · exact ⟨_, fun _ => rfl⟩
    · split
      · exact ⟨_, fun _ => rfl⟩
      · split <;> exact ⟨_, fun _ => rfl⟩
  | bareEscape => exact ⟨_, fun _ => rfl⟩
  | single =>
    simp only [wordsFrom, Mode.next]
    split <;> exact ⟨_, fun _ => rfl⟩
  | double =>
    simp only [wordsFrom, Mode.next]
    split
    · exact ⟨_, fun _ => rfl⟩
    · split <;> exact ⟨_, fun _ => rfl⟩
  | doubleEscape =>
    simp only [wordsFrom, Mode.next]
    split <;> exact ⟨_, fun _ => rfl⟩

/-- What one character does: some words are finished, and reading goes on in the next mode. -/
theorem exists_wordsFrom_eq_map (mode : Mode) (word : Option (List Char)) (c : Char) :
    ∃ (finished : List String) (word' : Option (List Char)), ∀ rest,
      wordsFrom mode word (c :: rest) =
        (wordsFrom (mode.next c) word' rest).map (finished ++ ·) := by
  by_cases h : mode = .bare → Text.isBlank c = false
  · obtain ⟨word', hword'⟩ := exists_wordsFrom_eq word h
    refine ⟨[], word', fun rest => (hword' rest).trans ?_⟩
    cases wordsFrom (mode.next c) word' rest <;> rfl
  · obtain ⟨rfl, hc⟩ := Classical.not_imp.1 h
    rw [Bool.not_eq_false] at hc
    rw [Mode.next_bare_of_isBlank hc]
    exact ⟨_, none, fun rest => wordsFrom_of_isBlank hc⟩

/-- What stands behind a finished text and a blank is read as if the text was not there. -/
theorem wordsFrom_append (hc : Text.isBlank c = true) (h : wordsFrom mode word s = .ok args) :
    wordsFrom mode word (s ++ c :: rest) = (wordsFrom .bare none rest).map (args ++ ·) := by
  induction s generalizing mode word args with
  | nil =>
    cases mode with
    | bare =>
      obtain rfl := Except.ok.inj h
      exact wordsFrom_of_isBlank hc
    | bareEscape | single | double | doubleEscape => cases h
  | cons d s ih =>
    obtain ⟨finished, word', hstep⟩ := exists_wordsFrom_eq_map mode word d
    rw [hstep] at h
    cases hs : wordsFrom (mode.next d) word' s with
    | error problem => rw [hs] at h; cases h
    | ok later =>
      rw [hs] at h
      obtain rfl := Except.ok.inj h
      rw [List.cons_append, hstep, ih hs]
      cases wordsFrom .bare none rest <;> simp [Except.map]

/-! ## Written words -/

/-- Whether a character stands for itself outside quotes. -/
def isBare (c : Char) : Bool := !Text.isBlank c && c ≠ '\'' && c ≠ '"' && c ≠ '\\'

/-- A part of a word, as it may be written. -/
inductive Piece where
  | single (run : List Char) (closed : '\'' ∉ run)
  | double (run : List Char)
  /-- After a backslash. -/
  | escaped (c : Char)
  | bare (c : Char) (plain : isBare c = true)

/-- How a character is written between double quotes. -/
def guarded (c : Char) : List Char := if c ∈ ['"', '\\', '$', '\x60'] then ['\\', c] else [c]

namespace Piece

/-- What the piece looks like. -/
def text : Piece → List Char
  | single run _ => '\'' :: run ++ ['\'']
  | double run => '"' :: run.flatMap guarded ++ ['"']
  | escaped c => ['\\', c]
  | bare c _ => [c]

/-- What the piece stands for. -/
def content : Piece → List Char
  | single run _ => run
  | double run => run
  | escaped c => [c]
  | bare c _ => [c]

end Piece

/-- A word, written in one or more pieces. -/
structure Word where
  pieces : List Piece
  ne_nil : pieces ≠ []

/-- What the word looks like. -/
def Word.text (word : Word) : List Char := word.pieces.flatMap Piece.text

/-- What the word stands for. -/
def Word.argument (word : Word) : String := String.ofList (word.pieces.flatMap Piece.content)

/-- A command, written as words with blanks between them. -/
structure Line where
  /-- The blanks before the first word. -/
  lead : List Char
  /-- The words, each with the blanks behind it. -/
  entries : List (Word × List Char)
  lead_blank : ∀ c ∈ lead, Text.isBlank c = true
  blank : ∀ e ∈ entries, ∀ c ∈ e.2, Text.isBlank c = true
  /-- There is a blank between any two words. -/
  apart : ∀ e ∈ entries.dropLast, e.2 ≠ []

namespace Line

/-- What the command looks like. -/
def text (line : Line) : String :=
  String.ofList (line.lead ++ line.entries.flatMap fun e => e.1.text ++ e.2)

/-- What the command stands for. -/
def arguments (line : Line) : List String := line.entries.map fun e => e.1.argument

end Line

/-! ## Reading what was written -/

theorem wordsFrom_single (hclosed : '\'' ∉ run) :
    wordsFrom .single (some w) (run ++ '\'' :: rest) =
      wordsFrom .bare (some (run.reverse ++ w)) rest := by
  induction run generalizing w with
  | nil => simp [wordsFrom]
  | cons c run ih =>
    obtain ⟨hc, hrun⟩ := not_or.1 (mt List.mem_cons.2 hclosed)
    rw [List.cons_append, wordsFrom, if_neg (Ne.symm hc), extend, Option.getD_some, ih hrun]
    simp

theorem wordsFrom_guarded (c : Char) :
    wordsFrom .double (some w) (guarded c ++ rest) = wordsFrom .double (some (c :: w)) rest := by
  unfold guarded
  split
  · next hc =>
    have hescapable : isEscapable c = true := by simpa [isEscapable, or_assoc] using hc
    simp [wordsFrom, hescapable, extend]
  · next hc =>
    simp only [List.mem_cons, not_or] at hc
    simp [wordsFrom, hc, extend]

theorem wordsFrom_double (run : List Char) :
    wordsFrom .double (some w) (run.flatMap guarded ++ '"' :: rest) =
      wordsFrom .bare (some (run.reverse ++ w)) rest := by
  induction run generalizing w with
  | nil => simp [wordsFrom]
  | cons c run ih =>
    rw [List.flatMap_cons, List.append_assoc, wordsFrom_guarded, ih]
    simp

/-- A piece is read as what it stands for. -/
theorem wordsFrom_piece (piece : Piece) :
    wordsFrom .bare word (piece.text ++ rest) =
      wordsFrom .bare (some (piece.content.reverse ++ word.getD [])) rest := by
  cases piece with
  | single run closed =>
    rw [Piece.text, List.append_assoc, List.cons_append, wordsFrom_of_not_blank (by decide),
      if_pos rfl]
    exact wordsFrom_single closed
  | double run =>
    rw [Piece.text, List.append_assoc, List.cons_append, wordsFrom_of_not_blank (by decide),
      if_neg (by decide), if_pos rfl]
    exact wordsFrom_double run
  | escaped c =>
    rw [Piece.text, List.cons_append, wordsFrom_of_not_blank (by decide), if_neg (by decide),
      if_neg (by decide), if_pos rfl]
    rfl
  | bare c plain =>
    simp only [isBare, Bool.and_eq_true, Bool.not_eq_true', decide_eq_true_eq] at plain
    obtain ⟨⟨⟨hblank, hsingle⟩, hdouble⟩, hescape⟩ := plain
    rw [Piece.text, List.cons_append, wordsFrom_of_not_blank hblank, if_neg hsingle, if_neg hdouble,
      if_neg hescape]
    rfl

/-- Pieces that follow each other belong to one word. -/
theorem wordsFrom_pieces (pieces : List Piece) :
    wordsFrom .bare (some w) (pieces.flatMap Piece.text) =
      .ok [String.ofList (w.reverse ++ pieces.flatMap Piece.content)] := by
  induction pieces generalizing w with
  | nil => simp [wordsFrom]
  | cons piece pieces ih =>
    rw [List.flatMap_cons, wordsFrom_piece, Option.getD_some, ih]
    simp

/-- A word that stands alone is the only word. -/
theorem wordsFrom_word (word : Word) : wordsFrom .bare none word.text = .ok [word.argument] := by
  obtain ⟨pieces, hne⟩ := word
  obtain ⟨piece, pieces, rfl⟩ := List.exists_cons_of_ne_nil hne
  rw [Word.text, List.flatMap_cons, wordsFrom_piece, wordsFrom_pieces]
  simp [Word.argument]

theorem wordsFrom_blanks (h : ∀ c ∈ blanks, Text.isBlank c = true) :
    wordsFrom .bare none (blanks ++ rest) = wordsFrom .bare none rest := by
  induction blanks with
  | nil => rfl
  | cons c blanks ih =>
    obtain ⟨hc, hblanks⟩ := List.forall_mem_cons.1 h
    rw [List.cons_append, wordsFrom, if_pos hc, ih hblanks]

/-- Words with blanks between them are the words of the text. -/
theorem wordsFrom_entries {entries : List (Word × List Char)}
    (hblank : ∀ e ∈ entries, ∀ c ∈ e.2, Text.isBlank c = true)
    (hapart : ∀ e ∈ entries.dropLast, e.2 ≠ []) :
    wordsFrom .bare none (entries.flatMap fun e => e.1.text ++ e.2) =
      .ok (entries.map fun e => e.1.argument) := by
  induction entries with
  | nil => rfl
  | cons e entries ih =>
    obtain ⟨word, blanks⟩ := e
    obtain ⟨he, hentries⟩ := List.forall_mem_cons.1 hblank
    rw [List.flatMap_cons, List.map_cons]
    cases blanks with
    | nil =>
      -- Only the last word may have no blank behind it.
      have hlast : entries = [] := by
        cases entries with
        | nil => rfl
        | cons next entries => exact absurd rfl (hapart (word, []) (List.mem_cons_self ..))
      rw [hlast, List.append_nil, List.flatMap_nil, List.append_nil]
      exact wordsFrom_word word
    | cons c blanks =>
      obtain ⟨hc, hblanks⟩ := List.forall_mem_cons.1 he
      have hlater := ih hentries fun other ho => hapart other <| by
        cases entries with
        | nil => cases ho
        | cons next entries => exact List.mem_cons_of_mem _ ho
      rw [List.append_assoc, List.cons_append, wordsFrom_append hc (wordsFrom_word word),
        wordsFrom_blanks hblanks, hlater]
      rfl

/-- The command that has each argument between double quotes. -/
def Line.quoted (arguments : List String) : Line where
  lead := []
  entries := arguments.map fun argument =>
    (⟨[.double argument.toList], List.cons_ne_nil _ _⟩, [' '])
  lead_blank := by simp
  blank := by simp [show Text.isBlank ' ' = true by decide]
  apart := by simp [← List.map_dropLast]

theorem Line.arguments_quoted (arguments : List String) :
    (quoted arguments).arguments = arguments := by
  rw [Line.arguments, quoted, List.map_map]
  refine (List.map_congr_left fun argument _ => ?_).trans (List.map_id arguments)
  simp [Word.argument, Piece.content]

/-- **A command is split into the arguments that it was written for.** -/
theorem words_written (arguments : List String) :
    (∃ line : Line, line.arguments = arguments) ∧
      ∀ line : Line, line.arguments = arguments → words line.text = .ok arguments := by
  refine ⟨⟨.quoted arguments, Line.arguments_quoted arguments⟩, ?_⟩
  rintro line rfl
  rw [words, Line.text, String.toList_ofList, wordsFrom_blanks line.lead_blank]
  exact wordsFrom_entries line.blank line.apart

namespace Quay

/-- What somebody calls from the quay, in all four kinds of pieces, with an empty word and a wide
blank. -/
def hail : Line where
  lead := [' ']
  entries := [
    (⟨[.bare 'h' rfl, .bare 'o' rfl], List.cons_ne_nil _ _⟩, [' ', '\t']),
    (⟨[.single "the \"Ann\"".toList (by decide), .bare 's' rfl], List.cons_ne_nil _ _⟩, [' ']),
    (⟨[.double []], List.cons_ne_nil _ _⟩, ['\u3000']),
    (⟨[.escaped ' ', .double ['$', '5']], List.cons_ne_nil _ _⟩, [])]
  lead_blank := List.forall_mem_singleton.2 (by decide)
  blank := by
    simp only [List.forall_mem_cons, List.not_mem_nil, false_imp_iff, implies_true, and_true]
    decide
  apart := by simp

theorem hail_is_split :
    hail.text = " ho \t'the \"Ann\"'s \"\"\u3000\\ \"\\$5\"" ∧
      words hail.text = .ok ["ho", "the \"Ann\"s", "", " $5"] :=
  ⟨by decide +kernel, (words_written _).2 hail (by decide +kernel)⟩

end Quay

/-! ## Commands that end too early -/

/-- How a character behind the text would be read. -/
def Mode.after (text : List Char) : Mode := text.foldl next .bare

/-- What is unfinished when nothing follows. -/
def Mode.unfinished? : Mode → Option Unfinished
  | bare => none
  | bareEscape => some .escape
  | single => some (.quote .single)
  | double | doubleEscape => some (.quote .double)

theorem Mode.unfinished?_eq_none_iff : mode.unfinished? = none ↔ mode = .bare := by
  cases mode <;> simp [unfinished?]

/-- A text has no words if it leaves something unfinished. -/
theorem wordsFrom_eq_error_iff :
    wordsFrom mode word s = .error problem ↔
      (s.foldl Mode.next mode).unfinished? = some problem := by
  induction s generalizing mode word with
  | nil => cases mode <;> simp [wordsFrom, Mode.unfinished?, eq_comm]
  | cons c s ih =>
    obtain ⟨finished, word', hstep⟩ := exists_wordsFrom_eq_map mode word c
    have hlater : wordsFrom (mode.next c) word' s = .error problem ↔ _ := ih
    rw [List.foldl_cons, hstep, ← hlater]
    cases wordsFrom (mode.next c) word' s <;> simp [Except.map]

/-- What happens to a command is what the mode says that is left behind its last character. -/
structure HeedsMode (command : String) : Prop where
  single : words command = .error (.quote .single) ↔ Mode.after command.toList = .single
  double : words command = .error (.quote .double) ↔
    Mode.after command.toList = .double ∨ Mode.after command.toList = .doubleEscape
  escape : words command = .error .escape ↔ Mode.after command.toList = .bareEscape
  finished : (∃ args, words command = .ok args) ↔ Mode.after command.toList = .bare
  /-- A finished command has no effect on what follows behind a blank. -/
  append : ∀ args, words command = .ok args → ∀ c, Text.isBlank c = true → ∀ later,
    words (command ++ String.singleton c ++ later) = (words later).map (args ++ ·)

theorem words_eq_error_iff {command : String} :
    words command = .error problem ↔ (Mode.after command.toList).unfinished? = some problem :=
  wordsFrom_eq_error_iff

/-- **A command is split unless it ends inside quotes or behind a backslash.** -/
theorem heedsMode (command : String) : HeedsMode command where
  single := by rw [words_eq_error_iff]; cases Mode.after command.toList <;> simp [Mode.unfinished?]
  double := by rw [words_eq_error_iff]; cases Mode.after command.toList <;> simp [Mode.unfinished?]
  escape := by rw [words_eq_error_iff]; cases Mode.after command.toList <;> simp [Mode.unfinished?]
  finished := by
    rw [← Mode.unfinished?_eq_none_iff, Option.eq_none_iff_forall_ne_some]
    simp only [ne_eq, ← words_eq_error_iff]
    cases words command <;> simp
  append args h c hc later := by
    rw [words, String.toList_append, String.toList_append, String.toList_singleton,
      List.append_assoc]
    exact wordsFrom_append hc h

namespace Quay

/-- A second call from the quay that breaks off does so whatever was called before it. -/
theorem second_hail_breaks_off :
    words "ho \"Ann\"" = .ok ["ho", "Ann"] ∧ words "ahoy" = .ok ["ahoy"] ∧
      words ("ho \"Ann\"" ++ String.singleton '\n' ++ "ahoy") = .ok ["ho", "Ann", "ahoy"] ∧
      words ("ho \"Ann\"" ++ String.singleton '\n' ++ "'ahoy") = .error (.quote .single) := by
  have hfirst : words "ho \"Ann\"" = .ok ["ho", "Ann"] := by rfl
  have hsecond : words "ahoy" = .ok ["ahoy"] := by rfl
  have hbroken : words "'ahoy" = .error (.quote .single) :=
    (heedsMode "'ahoy").single.2 (by decide +kernel)
  have happend := (heedsMode "ho \"Ann\"").append _ hfirst '\n' (by decide)
  exact ⟨hfirst, hsecond, by rw [happend, hsecond]; rfl, by rw [happend, hbroken]; rfl⟩

end Quay

end Stevedore.Command
