import Mathlib.Data.List.Basic
import Mathlib.Data.List.TakeWhile
import Stevedore.Docker.BuildOutput
import Stevedore.Text.Pieces

/-!
Which lines of a build's output tell how far the build has come.

White space around a line does not count. What is left has one of three forms
(`StepLine.IsSpelled`), and the line tells what stands in it if both of its numbers are in ASCII
digits and fit 32 bits (`buildProgress?_eq_some_iff`). No line can be taken in two ways. A number
ends where its digits end, because no form goes on with a digit there. And the name of a stage ends
at a blank, while a line without such a name has its closing bracket before the first one
(`dropWord?_eq_none`).

Digits of other scripts are digits to the forms, but no number is read from them. So a line may have
one of the forms and tell nothing. The number in front of the brackets is not read at all, and may
be in any script.
-/

namespace Stevedore

namespace Text

variable {s core : List Char}

/-! ## White space around a text -/

/-- Whether the text is `core` with white space around it, and `core` has none at its ends. -/
structure IsAround (s core : List Char) : Prop where
  parts : ∃ front back, s = front ++ core ++ back ∧ ∀ c ∈ front ++ back, isBlank c = true
  begins : ∀ c ∈ core.head?, isBlank c = false
  ends : ∀ c ∈ core.getLast?, isBlank c = false

theorem exists_dropBlankFront (s : List Char) :
    ∃ front, s = front ++ dropBlankFront s ∧ (∀ c ∈ front, isBlank c = true) ∧
      ∀ c ∈ (dropBlankFront s).head?, isBlank c = false :=
  ⟨s.takeWhile isBlank, takeWhile_dropWhile_eq_iff.1 ⟨rfl, rfl⟩⟩

theorem exists_dropBlankBack (s : List Char) :
    ∃ back, s = dropBlankBack s ++ back ∧ (∀ c ∈ back, isBlank c = true) ∧
      ∀ c ∈ (dropBlankBack s).getLast?, isBlank c = false := by
  obtain ⟨front, hs, hblank, hhead⟩ := exists_dropBlankFront s.reverse
  refine ⟨front.reverse, ?_, ?_, ?_⟩
  · rw [dropBlankBack, ← List.reverse_append]
    exact List.reverse_eq_iff.1 hs
  · simpa using hblank
  · rw [dropBlankBack, List.getLast?_reverse]
    exact hhead

theorem isAround_trimChars (s : List Char) : IsAround s (trimChars s) := by
  obtain ⟨front, hs, hfront, hhead⟩ := exists_dropBlankFront s
  obtain ⟨back, hcore, hback, hlast⟩ := exists_dropBlankBack (dropBlankFront s)
  refine ⟨⟨front, back, ?_, List.forall_mem_append.2 ⟨hfront, hback⟩⟩, ?_, hlast⟩
  · rw [List.append_assoc, trimChars, ← hcore, ← hs]
  · intro c hc
    refine hhead c ?_
    rw [hcore]
    exact List.mem_head?_append_of_mem_head? hc

/-- There is only one such text. -/
theorem IsAround.trimChars_eq (h : IsAround s core) : trimChars s = core := by
  obtain ⟨⟨front, back, rfl, hblank⟩, hbegins, hends⟩ := h
  obtain ⟨hfront, hback⟩ := List.forall_mem_append.1 hblank
  by_cases hcore : core = []
  · subst hcore
    have hnil : dropBlankFront (front ++ [] ++ back) = [] :=
      List.dropWhile_eq_nil_iff.2 (by simpa using hblank)
    rw [trimChars, hnil]
    rfl
  · have hfirst : dropBlankFront (front ++ core ++ back) = core ++ back := by
      refine (takeWhile_dropWhile_eq_iff.2 ⟨List.append_assoc .., hfront, ?_⟩).2
      rw [List.head?_append_of_ne_nil _ hcore]
      exact hbegins
    have hlast : (core ++ back).reverse.dropWhile isBlank = core.reverse := by
      refine (takeWhile_dropWhile_eq_iff.2 ⟨List.reverse_append, ?_, ?_⟩).2
      · simpa using hback
      · rw [List.head?_reverse]
        exact hends
    rw [trimChars, hfirst, dropBlankBack, hlast, List.reverse_reverse]

/-- A digit is never white space, of whatever script. -/
theorem isBlank_of_isDecimalDigit {c : Char} (h : isDecimalDigit c = true) : isBlank c = false := by
  have hapart : ∀ z ∈ decimalZeros, ∀ r ∈ blankRanges, z + 10 ≤ r.1 ∨ r.2 < z := by decide +kernel
  obtain ⟨z, hz, hc⟩ := List.any_eq_true.1 h
  rw [Bool.and_eq_true, decide_eq_true_eq, decide_eq_true_eq] at hc
  refine List.any_eq_false.2 fun r hr => ?_
  rw [Bool.and_eq_true, decide_eq_true_eq, decide_eq_true_eq]
  have hdisjoint := hapart z hz r hr
  omega

end Text

namespace Docker

/-! ## The forms of a line -/

/-- Whether the text is a number in the digits of any scripts. -/
def IsNumber (s : List Char) : Prop := s ≠ [] ∧ ∀ c ∈ s, Text.isDecimalDigit c = true

/-- Whether the text may name a stage of a build. -/
def IsStageName (s : List Char) : Prop := s ≠ [] ∧ ∀ c ∈ s, c ≠ ']' ∧ Text.isBlank c = false

/-- Whether the text is a number in ASCII digits, `n` by value, that fits 32 bits. -/
structure IsStepNumber (s : List Char) (n : Nat) : Prop where
  ne_nil : s ≠ []
  digits : ∀ c ∈ s, c.isDigit = true
  value : Nat.ofDigitChars 10 s 0 = n
  fits : n < 4294967296

namespace StepLine

/-- The numbers of a line as they stand in it. -/
def numbers (line : StepLine) : List Char := line.step ++ '/' :: line.totalSteps

/-- How a line is written: in one form by a builder that counts the steps of a build, and in two
forms by one that counts the steps of each stage. -/
inductive IsSpelled (line : StepLine) : List Char → Prop
  | plain : IsSpelled line
      ("Step ".toList ++ line.numbers ++ " : ".toList ++ line.message)
  | unnamed {number : List Char} (count : IsNumber number) : IsSpelled line
      ('#' :: number ++ " [".toList ++ line.numbers ++ "] ".toList ++ line.message)
  | named {number stage : List Char} (count : IsNumber number) (name : IsStageName stage) :
      IsSpelled line
        ('#' :: number ++ " [".toList ++ stage ++ ' ' :: line.numbers ++ "] ".toList ++
          line.message)

/-- Whether the numbers of the line are numbers, and its message stands on one line. -/
structure IsProper (line : StepLine) : Prop where
  step : IsNumber line.step
  totalSteps : IsNumber line.totalSteps
  message : '\n' ∉ line.message

/-- Whether the line tells that the build has come so far. -/
structure Tells (line : StepLine) (progress : BuildProgress) : Prop where
  step : IsStepNumber line.step progress.step
  totalSteps : IsStepNumber line.totalSteps progress.totalSteps
  message : line.message = progress.message.toList
  oneLine : '\n' ∉ line.message

end StepLine

variable {s rest : List Char} {line : StepLine}

theorem stepNumber?_eq_some_iff {n : Nat} : stepNumber? s = some n ↔ IsStepNumber s n := by
  rw [stepNumber?, Option.filter_eq_some_iff, Text.digitsValue?_eq_some_iff, decide_eq_true_eq]
  exact ⟨fun ⟨⟨hne, hdigits, hvalue⟩, hfits⟩ => ⟨hne, hdigits, hvalue, hfits⟩,
    fun h => ⟨⟨h.ne_nil, h.digits, h.value⟩, h.fits⟩⟩

theorem IsStepNumber.isNumber {n : Nat} (h : IsStepNumber s n) : IsNumber s :=
  ⟨h.ne_nil, fun c hc => Text.isDecimalDigit_of_isDigit (h.digits c hc)⟩

theorem StepLine.Tells.isProper {progress : BuildProgress} (h : line.Tells progress) :
    line.IsProper :=
  ⟨h.step.isNumber, h.totalSteps.isNumber, h.oneLine⟩

/-! ## How the parts of a line are read -/

theorem dropStart?_eq_some_iff {front : List Char} :
    dropStart? front s = some rest ↔ s = front ++ rest := by
  induction front generalizing s with
  | nil => simp [dropStart?]
  | cons p front ih =>
    cases s with
    | nil => simp [dropStart?]
    | cons c s =>
      rw [dropStart?]
      split
      · next hc => simp [ih, hc]
      · next hc => simp [Ne.symm hc]

theorem digits?_eq_some_iff {digits : List Char} :
    digits? s = some (digits, rest) ↔
      s = digits ++ rest ∧ IsNumber digits ∧ ∀ c ∈ rest.head?, Text.isDecimalDigit c = false := by
  rw [IsNumber, and_assoc, and_left_comm, ← Text.takeWhile_dropWhile_eq_iff]
  unfold digits?
  split
  · next hnil =>
    refine iff_of_false (by simp) ?_
    rintro ⟨hne, rfl, -⟩
    exact hne hnil
  · next hne =>
    rw [Option.some.injEq, Prod.mk.injEq]
    exact ⟨fun h => ⟨h.1 ▸ hne, h⟩, And.right⟩

/-- The second number ends where the separator begins, as this is no digit. -/
theorem stepLine?_eq_some_iff {separator : String} {c : Char} {later : List Char}
    (hseparator : separator.toList = c :: later) (hc : Text.isDecimalDigit c = false) :
    stepLine? separator s = some line ↔
      s = line.numbers ++ separator.toList ++ line.message ∧ line.IsProper := by
  have hslash : Text.isDecimalDigit '/' = false := by decide
  unfold stepLine? StepLine.numbers
  simp only [Option.bind_eq_bind, Option.bind_eq_some_iff, Prod.exists, digits?_eq_some_iff,
    dropStart?_eq_some_iff]
  constructor
  · rintro ⟨step, _, ⟨rfl, hstep, -⟩, _, rfl, total, _, ⟨rfl, htotal, -⟩, message, rfl, hline⟩
    split at hline
    · cases hline
    · next hmessage =>
      obtain rfl := Option.some.inj hline
      exact ⟨by simp, hstep, htotal, hmessage⟩
  · rintro ⟨rfl, hproper⟩
    refine ⟨line.step, '/' :: (line.totalSteps ++ (separator.toList ++ line.message)),
      ⟨by simp, hproper.step, by simp [hslash]⟩, _, rfl, line.totalSteps,
      separator.toList ++ line.message, ⟨rfl, hproper.totalSteps, by simp [hseparator, hc]⟩,
      line.message, rfl, if_neg hproper.message⟩

/-- Whether the character may stand in the name of a stage. -/
def isStageChar (c : Char) : Bool := c ≠ ']' && !Text.isBlank c

theorem isStageChar_iff {c : Char} :
    isStageChar c = true ↔ c ≠ ']' ∧ Text.isBlank c = false := by
  simp [isStageChar]

theorem IsNumber.isStageChar (h : IsNumber s) : ∀ c ∈ s, isStageChar c = true := by
  intro c hc
  have hbracket : Text.isDecimalDigit ']' = false := by decide
  refine isStageChar_iff.2 ⟨?_, Text.isBlank_of_isDecimalDigit (h.2 c hc)⟩
  rintro rfl
  exact Bool.noConfusion ((h.2 _ hc).symm.trans hbracket)

/-- The name of a stage ends at the blank behind it. -/
theorem IsStageName.span (h : IsStageName s) (rest : List Char) :
    (s ++ ' ' :: rest).takeWhile isStageChar = s ∧
      (s ++ ' ' :: rest).dropWhile isStageChar = ' ' :: rest := by
  have hblank : isStageChar ' ' = false := by decide
  exact Text.takeWhile_dropWhile_eq_iff.2
    ⟨rfl, fun c hc => isStageChar_iff.2 (h.2 c hc), by simp [hblank]⟩

theorem dropWord?_eq_some_iff :
    dropWord? s = some rest ↔ ∃ stage, s = stage ++ ' ' :: rest ∧ IsStageName stage := by
  have hchars : (fun c => c ≠ ']' && !Text.isBlank c) = isStageChar := rfl
  unfold dropWord?
  dsimp only
  rw [hchars]
  constructor
  · intro h
    split at h
    · next c stage later htake hdrop =>
      obtain rfl := Option.some.inj h
      obtain ⟨hs, hstage, -⟩ := Text.takeWhile_dropWhile_eq_iff.1 ⟨htake, hdrop⟩
      exact ⟨c :: stage, hs, List.cons_ne_nil c stage, fun c hc => isStageChar_iff.1 (hstage c hc)⟩
    · cases h
  · rintro ⟨stage, rfl, hstage⟩
    obtain ⟨c, name, hname⟩ := List.exists_cons_of_ne_nil hstage.1
    rw [(hstage.span rest).1, (hstage.span rest).2, hname]
    rfl

/-- Where the numbers stand, no name of a stage is read. -/
theorem dropWord?_eq_none (h : stepLine? "] " s = some line) : dropWord? s = none := by
  obtain ⟨rfl, hproper⟩ := (stepLine?_eq_some_iff rfl (by decide)).1 h
  have hslash : isStageChar '/' = true := by decide
  have hbracket : isStageChar ']' = false := by decide
  have hnumbers : ∀ c ∈ line.numbers, isStageChar c = true :=
    List.forall_mem_append.2
      ⟨hproper.step.isStageChar, List.forall_mem_cons.2 ⟨hslash, hproper.totalSteps.isStageChar⟩⟩
  have hrest : (line.numbers ++ "] ".toList ++ line.message).dropWhile isStageChar =
      "] ".toList ++ line.message :=
    (Text.takeWhile_dropWhile_eq_iff.2 ⟨List.append_assoc .., hnumbers, by simp [hbracket]⟩).2
  rw [Option.eq_none_iff_forall_ne_some]
  intro rest hword
  obtain ⟨stage, hs, hstage⟩ := dropWord?_eq_some_iff.1 hword
  -- What is behind the run begins with a blank in the one case, with the bracket in the other.
  rw [hs, (hstage.span rest).2] at hrest
  cases hrest

/-! ## How a line is read -/

/-- Of two ways that never both succeed it does not matter which one is tried first. -/
theorem orElse_eq_some_iff {α : Type} {x y : Option α} {a : α} (h : y = some a → x = none) :
    (x <|> y) = some a ↔ x = some a ∨ y = some a := by
  cases x with
  | none => simp
  | some b =>
    have hy : y ≠ some a := fun hy => nomatch h hy
    simp [hy]

theorem plainStep?_eq_some_iff :
    plainStep? s = some line ↔
      s = "Step ".toList ++ (line.numbers ++ " : ".toList ++ line.message) ∧ line.IsProper := by
  have hline : ∀ {s}, stepLine? " : " s = some line ↔
      s = line.numbers ++ " : ".toList ++ line.message ∧ line.IsProper :=
    stepLine?_eq_some_iff rfl (by decide)
  unfold plainStep?
  simp only [Option.bind_eq_some_iff, dropStart?_eq_some_iff, hline]
  constructor
  · rintro ⟨_, rfl, rfl, hproper⟩
    exact ⟨rfl, hproper⟩
  · rintro ⟨rfl, hproper⟩
    exact ⟨_, rfl, rfl, hproper⟩

/-- What stands behind the opening bracket, with the name of a stage or without. -/
theorem bracketed_eq_some_iff :
    ((dropWord? s).bind (stepLine? "] ") <|> stepLine? "] " s) = some line ↔
      (s = line.numbers ++ "] ".toList ++ line.message ∨ ∃ stage, IsStageName stage ∧
        s = stage ++ ' ' :: (line.numbers ++ "] ".toList ++ line.message)) ∧ line.IsProper := by
  have hline : ∀ {s}, stepLine? "] " s = some line ↔
      s = line.numbers ++ "] ".toList ++ line.message ∧ line.IsProper :=
    stepLine?_eq_some_iff rfl (by decide)
  rw [orElse_eq_some_iff fun h => by rw [dropWord?_eq_none h]; rfl, Option.bind_eq_some_iff, hline,
    or_comm]
  simp only [dropWord?_eq_some_iff, hline]
  constructor
  · rintro (⟨hs, hproper⟩ | ⟨_, ⟨stage, rfl, hstage⟩, rfl, hproper⟩)
    · exact ⟨.inl hs, hproper⟩
    · exact ⟨.inr ⟨stage, hstage, rfl⟩, hproper⟩
  · rintro ⟨hs | ⟨stage, hstage, rfl⟩, hproper⟩
    · exact .inl ⟨hs, hproper⟩
    · exact .inr ⟨_, ⟨stage, rfl, hstage⟩, rfl, hproper⟩

theorem stageStep?_eq_some_iff :
    stageStep? s = some line ↔
      ∃ number body, s = '#' :: number ++ " [".toList ++ body ∧ IsNumber number ∧
        ((dropWord? body).bind (stepLine? "] ") <|> stepLine? "] " body) = some line := by
  have hblank : Text.isDecimalDigit ' ' = false := by decide
  unfold stageStep?
  simp only [Option.bind_eq_bind, Option.bind_eq_some_iff, Prod.exists, digits?_eq_some_iff,
    dropStart?_eq_some_iff]
  constructor
  · rintro ⟨_, rfl, number, _, ⟨rfl, hnumber, -⟩, body, rfl, hbody⟩
    exact ⟨number, body, by simp, hnumber, hbody⟩
  · rintro ⟨number, body, rfl, hnumber, hbody⟩
    exact ⟨_, List.append_assoc .., number, _, ⟨rfl, hnumber, by simp [hblank]⟩, body, rfl, hbody⟩

/-- **A line is read as it is written**, in whichever form. -/
theorem read_eq_some_iff :
    (plainStep? s <|> stageStep? s) = some line ↔ line.IsSpelled s ∧ line.IsProper := by
  have hplain : stageStep? s = some line → plainStep? s = none := by
    intro h
    obtain ⟨number, body, rfl, -⟩ := stageStep?_eq_some_iff.1 h
    rfl
  rw [orElse_eq_some_iff hplain, plainStep?_eq_some_iff, stageStep?_eq_some_iff]
  simp only [bracketed_eq_some_iff]
  constructor
  · rintro (⟨rfl, hproper⟩ | ⟨number, _, rfl, hnumber, rfl | ⟨stage, hstage, rfl⟩, hproper⟩)
    · exact ⟨.plain, hproper⟩
    · have hspelled : line.IsSpelled _ := .unnamed hnumber
      exact ⟨by simpa using hspelled, hproper⟩
    · have hspelled : line.IsSpelled _ := .named hnumber hstage
      exact ⟨by simpa using hspelled, hproper⟩
  · rintro ⟨hspelled, hproper⟩
    cases hspelled with
    | plain => exact .inl ⟨rfl, hproper⟩
    | unnamed hnumber => exact .inr ⟨_, _, by simp, hnumber, .inl rfl, hproper⟩
    | named hnumber hstage => exact .inr ⟨_, _, by simp, hnumber, .inr ⟨_, hstage, rfl⟩, hproper⟩

/-- **Which lines tell how far a build has come, and what they tell.** -/
theorem buildProgress?_eq_some_iff {text : String} {progress : BuildProgress} :
    buildProgress? text = some progress ↔ ∃ (core : List Char) (line : StepLine),
      Text.IsAround text.toList core ∧ line.IsSpelled core ∧ line.Tells progress := by
  unfold buildProgress?
  simp only [Option.bind_eq_bind, Option.bind_eq_some_iff, read_eq_some_iff,
    stepNumber?_eq_some_iff, Option.pure_def, Option.some.injEq]
  constructor
  · rintro ⟨line, ⟨hspelled, hproper⟩, step, hstep, total, htotal, rfl⟩
    exact ⟨_, line, Text.isAround_trimChars _, hspelled, hstep, htotal,
      String.toList_ofList.symm, hproper.message⟩
  · rintro ⟨core, line, haround, hspelled, htells⟩
    refine ⟨line, ⟨haround.trimChars_eq ▸ hspelled, htells.isProper⟩, _, htells.step, _,
      htells.totalSteps, ?_⟩
    rw [htells.message, String.ofList_toList]

/-- The blank behind the colon belongs to the form, and digits of another script tell nothing. -/
example : buildProgress? " #7 [stall 03/4] COPY a b\t" = some ⟨3, 4, "COPY a b"⟩ ∧
    buildProgress? "#\u0667 [3/4] RUN" = some ⟨3, 4, "RUN"⟩ ∧
    buildProgress? "Step 3/4 : " = none ∧ buildProgress? "Step \u0663/4 : RUN" = none ∧
    buildProgress? "Step 3/4294967296 : RUN" = none := by decide +kernel

end Docker

end Stevedore
