import Mathlib.Data.List.Forall2
import Stevedore.Proofs.Outstanding
import Stevedore.Proofs.ProperNames
import Stevedore.Proofs.RunNames
import Stevedore.Proofs.Splitting

/-!
What becomes of the commands for removing things by hand when a user pastes them into a shell.

Such a command is put together from the words of a tool and the identifier or path of what is to be
removed, with a blank in between and nothing around it. It is split into what was meant exactly if
the identifier or path has no blank, quote or backslash in it, and is not empty
(`words_manualCommands_iff`). Any other path comes apart, or comes out as another one. This is so
for the paths of a run if, and only if, it is so for the directory for temporary files
(`isPlainWord_temporary_iff`).

That no other path is split right needs a fact about splitting: the letters of the words stand in
the command, in their order (`sublist_of_wordsFrom`). So if a letter of the path is dropped, then no
other can come in for it.
-/

namespace Stevedore

namespace Command

variable {c : Char} {mode : Mode} {word : Option (List Char)} {s : List Char} {args : List String}

/-! ## Letters that are dropped -/

/-- What was read of the text and may still become part of a word. -/
def Mode.held : Mode → List Char
  | doubleEscape => ['\\']
  | bare | bareEscape | single | double => []

/-- The letters of the words, one word after the other. -/
def letters (args : List String) : List Char := args.flatMap String.toList

theorem letters_of_isBlank (hc : Text.isBlank c = true)
    (h : wordsFrom .bare word (c :: s) = .ok args) :
    ∃ later, wordsFrom .bare none s = .ok later ∧
      letters args = (word.getD []).reverse ++ letters later := by
  rw [wordsFrom_of_isBlank hc] at h
  cases hlater : wordsFrom .bare none s with
  | error problem => rw [hlater] at h; cases h
  | ok later =>
    rw [hlater] at h
    obtain rfl := Except.ok.inj h
    refine ⟨later, rfl, ?_⟩
    cases word <;> simp [letters]

/-- Splitting drops letters, and adds none. -/
theorem sublist_of_wordsFrom (h : wordsFrom mode word s = .ok args) :
    (letters args).Sublist ((word.getD []).reverse ++ (mode.held ++ s)) := by
  induction s generalizing mode word args with
  | nil =>
    cases mode with
    | bare =>
      obtain rfl := Except.ok.inj h
      cases word <;> simp [Mode.held, letters]
    | bareEscape | single | double | doubleEscape => cases h
  | cons c s ih =>
    -- But for a blank, the character is dropped or put to the end of the word.
    have hdropped : ∀ {mode' word'}, mode'.held = [] → wordsFrom mode' word' s = .ok args →
        word'.getD [] = word.getD [] →
          (letters args).Sublist ((word.getD []).reverse ++ c :: s) := by
      intro mode' word' hheld h hword
      have hlater := ih h
      rw [hheld, hword] at hlater
      exact hlater.trans ((List.sublist_cons_self c s).append_left _)
    have hkept : ∀ {mode'}, mode'.held = [] → wordsFrom mode' (extend word c) s = .ok args →
        (letters args).Sublist ((word.getD []).reverse ++ c :: s) := by
      intro mode' hheld h
      simpa [extend, hheld] using ih h
    cases mode with
    | bare =>
      cases hc : Text.isBlank c with
      | true =>
        obtain ⟨later, hlater, hletters⟩ := letters_of_isBlank hc h
        rw [hletters]
        exact ((ih hlater).trans (List.sublist_cons_self c s)).append_left _
      | false =>
        rw [wordsFrom_of_not_blank hc] at h
        split at h
        · exact hdropped rfl h rfl
        split at h
        · exact hdropped rfl h rfl
        split at h
        · exact hdropped rfl h rfl
        · exact hkept rfl h
    | bareEscape => exact hkept rfl h
    | single =>
      simp only [wordsFrom] at h
      split at h
      · exact hdropped rfl h rfl
      · exact hkept rfl h
    | double =>
      simp only [wordsFrom] at h
      split at h
      · exact hdropped rfl h rfl
      split at h
      · next hc =>
        rw [hc]
        exact ih h
      · exact hkept rfl h
    | doubleEscape =>
      simp only [wordsFrom] at h
      split at h
      · exact (hkept rfl h).trans ((List.sublist_cons_self _ _).append_left _)
      · simpa [extend, Mode.held] using ih h

/-- Outside quotes, a character that does not stand for itself is dropped. -/
theorem sublist_of_not_isBare (hc : isBare c = false)
    (h : wordsFrom .bare word (c :: s) = .ok args) :
    (letters args).Sublist ((word.getD []).reverse ++ s) := by
  cases hblank : Text.isBlank c with
  | true =>
    obtain ⟨later, hlater, hletters⟩ := letters_of_isBlank hblank h
    rw [hletters]
    exact (sublist_of_wordsFrom hlater).append_left _
  | false =>
    rw [wordsFrom_of_not_blank hblank] at h
    split at h
    · exact sublist_of_wordsFrom h
    split at h
    · exact sublist_of_wordsFrom h
    split at h
    · exact sublist_of_wordsFrom h
    · next hsingle hdouble hescape =>
      simp [isBare, hblank, hsingle, hdouble, hescape] at hc

/-! ## Words that are read as they stand -/

/-- The rest of a text is read as it stands, to the end of the last word, exactly if all its
characters stand for themselves, and there is a word at all. -/
theorem wordsFrom_bare_iff (word : Option (List Char)) (s : List Char) :
    wordsFrom .bare word s = .ok [String.ofList ((word.getD []).reverse ++ s)] ↔
      (∀ c ∈ s, isBare c = true) ∧ (word.isSome ∨ s ≠ []) := by
  induction s generalizing word with
  | nil => cases word <;> simp [wordsFrom]
  | cons c s ih =>
    rw [List.forall_mem_cons]
    cases hc : isBare c with
    | true =>
      have hread : wordsFrom .bare word (c :: s) = wordsFrom .bare (extend word c) s :=
        wordsFrom_piece (.bare c hc)
      have hlater := ih (extend word c)
      simp only [extend, Option.getD_some, List.reverse_cons, List.append_assoc,
        List.singleton_append] at hlater
      rw [hread, extend, hlater]
      simp
    | false =>
      refine iff_of_false ?_ (by simp)
      intro h
      -- One letter is missing.
      have hlength := (sublist_of_not_isBare hc h).length_le
      simp only [letters, List.flatMap_singleton, String.toList_ofList, List.length_append,
        List.length_cons] at hlength
      omega

/-- Whether a text stands for itself as one word of a command. -/
def IsPlainWord (s : String) : Prop := s ≠ "" ∧ ∀ c ∈ s.toList, isBare c = true

instance (s : String) : Decidable (IsPlainWord s) := inferInstanceAs (Decidable (_ ∧ _))

theorem isPlainWord_append_iff {s t : String} (ht : IsPlainWord t) :
    IsPlainWord (s ++ t) ↔ ∀ c ∈ s.toList, isBare c = true := by
  have hne : s ++ t ≠ "" := fun h => ht.1 (String.append_eq_empty_iff.1 h).2
  simp only [IsPlainWord, String.toList_append, List.forall_mem_append]
  exact ⟨fun h => h.2.1, fun h => ⟨hne, h, ht.2⟩⟩

theorem words_eq_singleton_iff (s : String) : words s = .ok [s] ↔ IsPlainWord s := by
  have hbare := wordsFrom_bare_iff none s.toList
  simp only [Option.getD_none, List.reverse_nil, List.nil_append, String.ofList_toList,
    Option.isSome_none, Bool.false_eq_true, false_or, ne_eq, String.toList_eq_nil_iff] at hbare
  rw [words, hbare, IsPlainWord, and_comm]

/-- A text behind a finished command is its last word exactly if it is plain. -/
theorem words_append_iff {front : String} {tool : List String} (hfront : words front = .ok tool)
    (last : String) : words (front ++ " " ++ last) = .ok (tool ++ [last]) ↔ IsPlainWord last := by
  have hsplit : words (front ++ " " ++ last) = (words last).map (tool ++ ·) :=
    (heedsMode front).append tool hfront ' ' (by decide) last
  rw [hsplit, ← words_eq_singleton_iff]
  cases words last <;> simp [Except.map]

end Command

open Command

/-! ## Commands for removing things -/

/-- A way to remove something by hand. -/
structure Removal where
  /-- The words that say how. -/
  tool : List String
  /-- What is removed. -/
  subject : String

namespace Removal

/-- What is meant to be called. -/
def arguments (r : Removal) : List String := r.tool ++ [r.subject]

/-- What is reported to the user. -/
def command (r : Removal) : String := " ".intercalate r.tool ++ " " ++ r.subject

end Removal

namespace Summary

variable {s : Summary} {removal : Removal}

/-- How everything outstanding is removed by hand. -/
def removals (s : Summary) : List Removal :=
  (s.outstandingContainers.values.map fun handle =>
    ⟨["docker", "rm", "--force", "--volumes"], handle.id⟩) ++
  (s.outstandingFiles.map fun path => ⟨["rm"], path.text⟩) ++
  (s.outstandingDirectories.map fun path => ⟨["rm", "-rf"], path.text⟩) ++
  (s.outstandingNetwork?.toList.map fun network => ⟨["docker", "network", "rm"], network.id⟩)

theorem manualCommands_eq_map (s : Summary) :
    manualCommands s = s.removals.map Removal.command := by
  simp only [manualCommands, removals, List.map_append, List.map_map, Function.comp_def]
  rfl

/-- The words of the tools are plain, so they are read as they stand. -/
theorem words_tool (h : removal ∈ s.removals) :
    words (" ".intercalate removal.tool) = .ok removal.tool := by
  have htools : ∀ tool ∈ [["docker", "rm", "--force", "--volumes"], ["rm"], ["rm", "-rf"],
      ["docker", "network", "rm"]], words (" ".intercalate tool) = .ok tool := by
    decide +kernel
  refine htools removal.tool ?_
  simp only [removals, List.mem_append, List.mem_map] at h
  obtain ((⟨_, -, rfl⟩ | ⟨_, -, rfl⟩) | ⟨_, -, rfl⟩) | ⟨_, -, rfl⟩ := h <;> simp

/-- **A command is pasted as it was meant exactly if what it removes is a plain word**: there is one
command for each thing, in this order, and it is split into the words of the tool and the identifier
or path unless this is empty, or has a blank, a quote or a backslash in it. -/
theorem words_manualCommands_iff (s : Summary) :
    List.Forall₂ (fun command removal =>
      words command = .ok removal.arguments ↔ IsPlainWord removal.subject)
      (manualCommands s) s.removals := by
  rw [manualCommands_eq_map, List.forall₂_map_left_iff, List.forall₂_same]
  intro removal hremoval
  exact words_append_iff (words_tool hremoval) removal.subject

end Summary

/-! ## Paths of a run -/

theorem isBare_of_isNameChar {c : Char} (h : isNameChar c = true) : isBare c = true := by
  rcases isNameChar_iff.1 h with h | rfl | rfl | rfl
  · have hne : ∀ d, isWordChar d = false → c ≠ d := by
      rintro d hd rfl
      exact Bool.noConfusion (h.symm.trans hd)
    simp [isBare, isBlank_of_isWordChar h, hne '\'' (by decide), hne '"' (by decide),
      hne '\\' (by decide)]
  all_goals decide

/-- What is behind the directory in a temporary path is plain. -/
theorem RunNames.isBare_label (project task suffix container : String) {purpose : String}
    (h : purpose ∈ purposes) :
    ∀ c ∈ ((ofRun project task suffix).label container purpose).toList, isBare c = true := by
  have hsanitised : ∀ text, ∀ c ∈ (sanitised text).toList, isBare c = true :=
    fun text c hc => isBare_of_isNameChar (isNameChar_sanitised text c hc)
  have hpurposes : ∀ purpose ∈ purposes, purpose.toList.all isBare = true :=
    List.all_eq_true.1 (by decide)
  have hdash : ∀ c ∈ "-".toList, isBare c = true := List.all_eq_true.1 (by decide)
  have hfront : ∀ c ∈ "dockhand-".toList, isBare c = true := List.all_eq_true.1 (by decide)
  simp only [label, ofRun, String.toList_append, List.forall_mem_append]
  exact ⟨⟨⟨⟨⟨⟨⟨hfront, hsanitised project⟩, hdash⟩, hsanitised container⟩, hdash⟩,
    hsanitised suffix⟩, hdash⟩, List.all_eq_true.1 (hpurposes purpose h)⟩

/-- **The temporary paths of a run are plain words exactly if the directory for such paths has a
plain name**, whatever the project, the task and the container are called. -/
theorem RunNames.isPlainWord_temporary_iff (project task suffix container : String) (base : Path)
    {purpose : String} (h : purpose ∈ purposes) :
    IsPlainWord ((ofRun project task suffix).temporary base container purpose).text ↔
      ∀ c ∈ base.text.toList, isBare c = true := by
  let label := (ofRun project task suffix).label container purpose
  have hlabel : IsPlainWord label :=
    ⟨by simp [label, RunNames.label], isBare_label project task suffix container h⟩
  have hslashed : IsPlainWord ("/" ++ label) :=
    (isPlainWord_append_iff hlabel).2 (List.all_eq_true.1 (by decide))
  have hrelative : (⟨label⟩ : Path).isAbsolute = false := by
    simp [Path.isAbsolute, label, RunNames.label]
  show IsPlainWord (base.join ⟨label⟩).text ↔ _
  unfold Path.join
  rw [if_neg (by simp [hrelative])]
  split
  · exact isPlainWord_append_iff hlabel
  · rw [String.append_assoc]
    exact isPlainWord_append_iff hslashed

/-! ## An attic with a spare room -/

namespace Attic

/-- A box in the attic is moved through the spare room. -/
def box : Path := (RunNames.ofRun "attic" "tidy" "1").temporary ⟨"/spare room"⟩ "box" "home"

/-- What has happened when it got stuck there. -/
def events : List Event := [.directoryCreated "box" box]

/-- The command that should remove the box removes the spare room. -/
theorem spare_room_is_removed :
    (Summary.ofEvents events).removals.map Removal.arguments =
        [["rm", "-rf", "/spare room/dockhand-attic-box-1-home"]] ∧
      (manualCommands (.ofEvents events)).map words =
        [.ok ["rm", "-rf", "/spare", "room/dockhand-attic-box-1-home"]] := by
  decide +kernel

end Attic

end Stevedore
