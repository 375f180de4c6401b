import Mathlib.Data.List.Basic
import Stevedore.Project.Check
import Stevedore.Proofs.LegalNames

/-!
Which names a project and its containers may have.

The rule that users are told goes by runs of marks: where marks follow one another in a name, as far
as they go, they are a period, one or two underscores, or dashes (`IsProper`). The automaton that
checks names accepts words with separators between them (`IsReference`), so the two come from
opposite sides. What brings them together is the seam of two texts: a run cannot go across it unless
there are marks on both sides (`IsRunIn.of_append`). So the runs of a name that was put together are
the separators that were put in, and a name can be taken apart behind its first run, with a shorter
name left over (`IsProper.of_append`).
-/

namespace Stevedore

/-! ## Runs of marks -/

/-- The lower case letters of the alphabet, and the digits. -/
def IsPlain (c : Char) : Prop := 'a' ≤ c ∧ c ≤ 'z' ∨ '0' ≤ c ∧ c ≤ '9'

instance : DecidablePred IsPlain := fun _ => inferInstanceAs (Decidable (_ ∨ _))

/-- The marks that may stand in a name. -/
def IsMark (c : Char) : Prop := c = '.' ∨ c = '_' ∨ c = '-'

instance : DecidablePred IsMark := fun _ => inferInstanceAs (Decidable (_ ∨ _))

/-- Whether somewhere in `s` there are just these marks, one behind the other. -/
structure IsRunIn (run s : List Char) : Prop where
  ne_nil : run ≠ []
  marks : ∀ c ∈ run, IsMark c
  /-- There is no mark before them and none behind them. -/
  maximal : ∃ before after, s = before ++ run ++ after ∧
    (∀ c ∈ before.getLast?, ¬ IsMark c) ∧ ∀ c ∈ after.head?, ¬ IsMark c

/-- Whether a name may be spelled like this. -/
structure IsProper (s : List Char) : Prop where
  ne_nil : s ≠ []
  chars : ∀ c ∈ s, IsPlain c ∨ IsMark c
  begins : ∀ c ∈ s.head?, IsPlain c
  ends : ∀ c ∈ s.getLast?, IsPlain c
  runs : ∀ run, IsRunIn run s → IsSeparator run

variable {c : Char} {run r s t w : List Char}

theorem isWordChar_iff : isWordChar c = true ↔ IsPlain c := by
  rw [isWordChar, Bool.or_eq_true, isLower_iff, isDigit_iff]
  exact Iff.rfl

theorem IsPlain.not_isMark (h : IsPlain c) : ¬ IsMark c := by
  rintro (rfl | rfl | rfl)
  · exact absurd h (by decide)
  · exact absurd h (by decide)
  · exact absurd h (by decide)

theorem IsSeparator.ne_nil (hs : IsSeparator s) : s ≠ [] := by
  cases hs with
  | dashes more => exact List.cons_ne_nil _ _
  | _ => exact List.cons_ne_nil _ _

theorem IsSeparator.marks (hs : IsSeparator s) : ∀ c ∈ s, IsMark c := by
  cases hs with
  | period | underscore | underscores => simp [IsMark]
  | dashes more =>
    intro c hc
    exact .inr (.inr (List.eq_of_mem_replicate hc))

theorem eq_nil_of_head? (h : ∀ c, c ∉ s.head?) : s = [] :=
  List.head?_eq_none_iff.1 (Option.eq_none_iff_forall_not_mem.2 h)

theorem eq_nil_of_getLast? (h : ∀ c, c ∉ s.getLast?) : s = [] :=
  List.getLast?_eq_none_iff.1 (Option.eq_none_iff_forall_not_mem.2 h)

namespace IsRunIn

/-- Where nothing but marks stand, they are one run. -/
theorem eq_of_marks (h : IsRunIn run s) (hs : ∀ c ∈ s, IsMark c) : run = s := by
  obtain ⟨before, after, rfl, hbefore, hafter⟩ := h.maximal
  have hnone : before = [] := eq_nil_of_getLast? fun c hc =>
    hbefore c hc (hs c (by simp [List.mem_of_getLast? hc]))
  have hnone' : after = [] := eq_nil_of_head? fun c hc =>
    hafter c hc (hs c (by simp [List.mem_of_head? hc]))
  rw [hnone, hnone', List.nil_append, List.append_nil]

/-- A run stays one when something is put before the text that does not begin with it. -/
theorem append_left (h : IsRunIn run t) (ht : ∀ c ∈ t.head?, ¬ IsMark c) (s : List Char) :
    IsRunIn run (s ++ t) := by
  obtain ⟨before, after, rfl, hbefore, hafter⟩ := h.maximal
  have hne : before ≠ [] := by
    rintro rfl
    obtain ⟨c, rest, hrun⟩ := List.exists_cons_of_ne_nil h.ne_nil
    exact ht c (by simp [hrun]) (h.marks c (by simp [hrun]))
  refine ⟨h.ne_nil, h.marks, s ++ before, after, by simp, ?_, hafter⟩
  rw [List.getLast?_append_of_ne_nil s hne]
  exact hbefore

end IsRunIn

/-- If one side of a seam has no mark, and all between two places around it are marks, then there is
nothing between the seam and one of the places. -/
theorem eq_nil_of_seam {before front back after : List Char}
    (hmarks : ∀ c ∈ front ++ back, IsMark c)
    (seam : (∀ c ∈ (before ++ front).getLast?, ¬ IsMark c) ∨
      ∀ c ∈ (back ++ after).head?, ¬ IsMark c) : front = [] ∨ back = [] := by
  rcases seam with hleft | hright
  · refine .inl (eq_nil_of_getLast? fun c hc => ?_)
    exact hleft c (List.mem_getLast?_append_of_mem_getLast? hc)
      (hmarks c (List.mem_append_left _ (List.mem_of_getLast? hc)))
  · refine .inr (eq_nil_of_head? fun c hc => ?_)
    exact hright c (List.mem_head?_append_of_mem_head? hc)
      (hmarks c (List.mem_append_right _ (List.mem_of_head? hc)))

/-- **No run goes across a seam** that has no mark on one of its sides. -/
theorem IsRunIn.of_append (h : IsRunIn run (s ++ t))
    (seam : (∀ c ∈ s.getLast?, ¬ IsMark c) ∨ ∀ c ∈ t.head?, ¬ IsMark c) :
    IsRunIn run s ∨ IsRunIn run t := by
  obtain ⟨hne, hmarks, before, after, heq, hbefore, hafter⟩ := h
  rcases List.append_eq_append_iff.1 heq with ⟨mid, hfront, rfl⟩ | ⟨mid, rfl, rfl⟩
  · rcases List.append_eq_append_iff.1 hfront with ⟨front, rfl, rfl⟩ | ⟨between, rfl, rfl⟩
    · -- The seam is in the run.
      rcases eq_nil_of_seam hmarks seam with rfl | rfl
      · exact .inr ⟨hne, hmarks, [], after, rfl, nofun, hafter⟩
      · rw [List.append_nil] at hne hmarks ⊢
        exact .inl ⟨hne, hmarks, before, [], (List.append_nil _).symm, hbefore, nofun⟩
    · -- The seam is before the run.
      refine .inr ⟨hne, hmarks, between, after, rfl, fun c hc => ?_, hafter⟩
      exact hbefore c (List.mem_getLast?_append_of_mem_getLast? hc)
  · -- The seam is behind the run.
    refine .inl ⟨hne, hmarks, before, mid, rfl, hbefore, fun c hc => ?_⟩
    exact hafter c (List.mem_head?_append_of_mem_head? hc)

/-! ## Names that are put together, and taken apart -/

theorem IsWord.isPlain (hw : IsWord w) : ∀ c ∈ w, IsPlain c :=
  fun c hc => isWordChar_iff.1 (hw.all c hc)

theorem IsWord.isProper (hw : IsWord w) : IsProper w where
  ne_nil := hw.ne_nil
  chars c hc := .inl (hw.isPlain c hc)
  begins c hc := hw.isPlain c (List.mem_of_head? hc)
  ends c hc := hw.isPlain c (List.mem_of_getLast? hc)
  runs run hrun := by
    obtain ⟨before, after, rfl, -, -⟩ := hrun.maximal
    obtain ⟨c, hc⟩ := List.exists_mem_of_ne_nil run hrun.ne_nil
    exact absurd (hrun.marks c hc) (hw.isPlain c (by simp [hc])).not_isMark

namespace IsProper

/-- Names with a separator between them are one name. -/
theorem join (hr : IsProper r) (hs : IsSeparator s) (ht : IsProper t) : IsProper (r ++ s ++ t) where
  ne_nil := List.append_ne_nil_of_right_ne_nil _ ht.ne_nil
  chars := by
    refine List.forall_mem_append.2 ⟨List.forall_mem_append.2 ⟨hr.chars, ?_⟩, ht.chars⟩
    exact fun c hc => .inr (hs.marks c hc)
  begins := by
    rw [List.append_assoc, List.head?_append_of_ne_nil _ hr.ne_nil]
    exact hr.begins
  ends := by
    rw [List.getLast?_append_of_ne_nil _ ht.ne_nil]
    exact ht.ends
  runs run hrun := by
    rcases hrun.of_append (.inr fun c hc => (ht.begins c hc).not_isMark) with hrun | hrun
    · rcases hrun.of_append (.inl fun c hc => (hr.ends c hc).not_isMark) with hrun | hrun
      · exact hr.runs run hrun
      · rw [hrun.eq_of_marks hs.marks]
        exact hs
    · exact ht.runs run hrun

/-- What a name ends in, from one of its letters on, is a name. -/
theorem of_append (h : IsProper (s ++ t)) (hne : t ≠ []) (ht : ∀ c ∈ t.head?, IsPlain c) :
    IsProper t where
  ne_nil := hne
  chars c hc := h.chars c (List.mem_append_right s hc)
  begins := ht
  ends := by
    have hends := h.ends
    rw [List.getLast?_append_of_ne_nil _ hne] at hends
    exact hends
  runs run hrun := h.runs run (hrun.append_left (fun c hc => (ht c hc).not_isMark) s)

end IsProper

theorem IsReference.isProper (hr : IsReference r) : IsProper r := by
  induction hr with
  | word hw => exact hw.isProper
  | joined _ hs hw ih => exact ih.join hs hw.isProper

/-- Every text begins with all that satisfies a condition, as far as it goes. -/
theorem exists_span (p : Char → Prop) [DecidablePred p] (s : List Char) :
    ∃ front back, s = front ++ back ∧ (∀ c ∈ front, p c) ∧ ∀ c ∈ back.head?, ¬ p c := by
  obtain ⟨hs, hfront, hback⟩ :=
    Text.takeWhile_dropWhile_eq_iff (p := fun c => decide (p c)) (s := s).1 ⟨rfl, rfl⟩
  exact ⟨_, _, hs, fun c hc => of_decide_eq_true (hfront c hc),
    fun c hc => of_decide_eq_false (hback c hc)⟩

/-- A name begins with a word, and goes on with a separator and a name, if it goes on. -/
theorem IsProper.cases (h : IsProper s) :
    IsWord s ∨ ∃ w m t, s = w ++ m ++ t ∧ IsWord w ∧ IsSeparator m ∧ IsProper t := by
  obtain ⟨w, rest, rfl, hw, hrest⟩ := exists_span IsPlain s
  obtain ⟨m, t, rfl, hm, ht⟩ := exists_span IsMark rest
  have hword : IsWord w := by
    refine ⟨?_, fun c hc => isWordChar_iff.2 (hw c hc)⟩
    rintro rfl
    exact h.ne_nil (eq_nil_of_head? fun c hc => hrest c hc (h.begins c hc))
  have htplain : ∀ c ∈ t.head?, IsPlain c := by
    intro c hc
    have hmem : c ∈ w ++ (m ++ t) := by simp [List.mem_of_head? hc]
    exact (h.chars c hmem).resolve_right (ht c hc)
  by_cases hmne : m = []
  · rw [hmne, List.nil_append] at hrest ⊢
    have htnil : t = [] := eq_nil_of_head? fun c hc => hrest c hc (htplain c hc)
    rw [htnil, List.append_nil]
    exact .inl hword
  · rw [← List.append_assoc] at h ⊢
    have htne : t ≠ [] := by
      rintro rfl
      rw [List.append_nil] at h
      refine hmne (eq_nil_of_getLast? fun c hc => ?_)
      exact (h.ends c (List.mem_getLast?_append_of_mem_getLast? hc)).not_isMark
        (hm c (List.mem_of_getLast? hc))
    have hrun : IsRunIn m (w ++ m ++ t) := by
      refine ⟨hmne, hm, w, t, rfl, fun c hc => ?_, ht⟩
      exact (hw c (List.mem_of_getLast? hc)).not_isMark
    exact .inr ⟨w, m, t, rfl, hword, h.runs m hrun, h.of_append htne htplain⟩

theorem IsProper.isReference (h : IsProper s) : IsReference s := by
  -- The induction is on the length: what is left behind the first run is shorter.
  induction hlength : s.length using Nat.strongRecOn generalizing s with
  | ind length ih =>
    rcases h.cases with hw | ⟨w, m, t, rfl, hw, hm, ht⟩
    · exact .word hw
    · have hpos := List.length_pos_iff.2 hm.ne_nil
      rw [List.length_append, List.length_append] at hlength
      exact .append (.word hw) hm (ih t.length (by omega) ht rfl)

/-- The automaton accepts just the names that are spelled by the rule. -/
theorem isReferenceName_iff_isProper {name : String} :
    isReferenceName name = true ↔ IsProper name.toList := by
  rw [isReferenceName_iff]
  exact ⟨IsReference.isProper, IsProper.isReference⟩

instance (name : String) : Decidable (IsProper name.toList) :=
  decidable_of_iff _ isReferenceName_iff_isProper

/-- Marks of different kinds do not go together. -/
example : IsProper "my__shop--2.0".toList ∧ ¬ IsProper "my-.shop".toList ∧
    ¬ IsProper "my_-shop".toList ∧ ¬ IsProper "my___shop".toList := by decide

/-! ## What is checked -/

theorem isBlank_of_isWordChar (h : isWordChar c = true) : Text.isBlank c = false := by
  rw [isWordChar, Bool.or_eq_true, isLower_iff, isDigit_iff] at h
  rw [Bool.eq_false_iff]
  simp only [Text.isBlank, Text.blankRanges, List.any_cons, List.any_nil, Bool.or_false, ne_eq,
    Bool.or_eq_true, Bool.and_eq_true, decide_eq_true_eq, Char.toNat]
  omega

theorem isBlankText_of_isReferenceName {name : String} (h : isReferenceName name = true) :
    Text.isBlankText name = false := by
  obtain ⟨c, hhead, hc⟩ := (isReferenceName_iff.1 h).begins
  refine List.all_eq_false.2 ⟨c, List.mem_of_head? hhead, ?_⟩
  simp [isBlank_of_isWordChar hc]

theorem ProjectSettings.nameProblems_eq_nil_iff {s : ProjectSettings} :
    s.nameProblems = [] ↔ isReferenceName s.projectName = true := by
  unfold nameProblems
  split
  · next hblank =>
    refine iff_of_false (List.cons_ne_nil _ _) fun h => ?_
    rw [isBlankText_of_isReferenceName h] at hblank
    nomatch hblank
  · split
    · next h => exact iff_of_true rfl h
    · next h => exact iff_of_false (List.cons_ne_nil _ _) h

namespace ContainerSettings

variable {name : String} {settings : ContainerSettings}

/-- What the volumes of a container are checked for is not its name. -/
theorem containerNameInvalid_not_mem_volumes (volume : VolumeSettings) :
    .containerNameInvalid name ∉ volume.problems name := by
  unfold VolumeSettings.problems
  rw [List.mem_append, not_or]
  refine ⟨?_, by split <;> simp⟩
  split
  · exact List.not_mem_nil
  · split
    · simp
    · split <;> simp

theorem containerNameInvalid_mem_problems_iff :
    .containerNameInvalid name ∈ settings.problems name ↔ isReferenceName name = false := by
  have himage : .containerNameInvalid name ∉ settings.imageProblems name := by
    unfold imageProblems
    split <;> simp
  have hsetup : .containerNameInvalid name ∉ settings.setupProblems name := by
    simp [setupProblems]
  have huser : .containerNameInvalid name ∉ settings.userProblems name := by
    unfold userProblems
    split
    · split
      · simp
      · split <;> simp
    · exact List.not_mem_nil
  have hvolumes : .containerNameInvalid name ∉ settings.volumes.flatMap (·.problems name) := by
    simp [containerNameInvalid_not_mem_volumes]
  simp only [problems, List.mem_append, himage, hsetup, huser, hvolumes, or_false]
  split <;> simp_all

end ContainerSettings

/-- **The names that are accepted are those that the rule allows**, for projects and for containers,
whatever else is configured. -/
theorem acceptsName_iff (name : String) (project : ProjectSettings)
    (container : ContainerSettings) :
    ({ project with projectName := name }.nameProblems = [] ↔ IsProper name.toList) ∧
      (.containerNameInvalid name ∉ container.problems name ↔ IsProper name.toList) := by
  rw [ProjectSettings.nameProblems_eq_nil_iff,
    ContainerSettings.containerNameInvalid_mem_problems_iff, Bool.not_eq_false,
    isReferenceName_iff_isProper]
  exact ⟨Iff.rfl, Iff.rfl⟩

end Stevedore
