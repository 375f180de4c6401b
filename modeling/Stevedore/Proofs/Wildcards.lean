import Mathlib.Data.List.Forall2
import Stevedore.Proofs.Prerequisites
import Stevedore.Text.Pieces

/-!
Which tasks a list of prerequisites stands for.

The stars of a pattern cut it into pieces, and a name fits the pattern if it consists of these
pieces with something between each two, which may be empty but has no line feed (`Wildcard.Fills`).
Nothing else is special in a pattern: its pieces are compared character by character. The matcher
goes through the pattern instead (`Wildcard.fits`), one character or star after the other, and has
to try how much each star takes; that this comes to the same is shown along the pattern
(`fits_iff`).

An engine for regular expressions is given the pieces, each as a literal, with an expression for any
run of characters between each two, and has to match a name from end to end
(`Wildcard.expression`). That is a third way to say the same (`fits_iff_matches`).

Entries without a star stand for themselves, whether or not there is such a task
(`Project.exists_expansion`).
-/

namespace Stevedore

/-! ## Pieces and gaps -/

namespace Wildcard

/-- Whether the text consists of these pieces, with a gap between each two. Gaps do not go beyond a
line. -/
inductive Fills : List (List Char) → List Char → Prop
  | last (piece : List Char) : Fills [piece] piece
  | next {piece gap s : List Char} {later : List (List Char)} (inLine : '\n' ∉ gap)
      (rest : Fills later s) : Fills (piece :: later) (piece ++ (gap ++ s))

variable {pattern s t piece : List Char} {later : List (List Char)} {c : Char}

/-- A star takes any part of a line. -/
theorem mem_afterStar : t ∈ afterStar s ↔ ∃ gap, '\n' ∉ gap ∧ s = gap ++ t := by
  induction s with
  | nil => simp [afterStar, eq_comm]
  | cons c s ih =>
    rw [afterStar, List.mem_cons]
    constructor
    · intro h
      rcases h with rfl | h
      · exact ⟨[], List.not_mem_nil, rfl⟩
      · by_cases hc : c = '\n'
        · simp [hc] at h
        · rw [if_neg hc] at h
          obtain ⟨gap, hgap, rfl⟩ := ih.1 h
          exact ⟨c :: gap, by simp [hgap, Ne.symm hc], rfl⟩
    · intro h
      obtain ⟨gap, hgap, hs⟩ := h
      cases gap with
      | nil => exact .inl hs.symm
      | cons d gap =>
        obtain ⟨rfl, rfl⟩ := List.cons.inj hs
        rw [List.mem_cons, not_or] at hgap
        rw [if_neg (Ne.symm hgap.1)]
        exact .inr (ih.2 ⟨gap, hgap.2, rfl⟩)

theorem fills_singleton : Fills [piece] s ↔ s = piece := by
  constructor
  · intro h
    cases h with
    | last => rfl
    | next _ rest => cases rest
  · rintro rfl
    exact .last s

/-- What begins with an empty piece begins with a gap. -/
theorem fills_nil_cons (hlater : later ≠ []) :
    Fills ([] :: later) s ↔ ∃ gap t, '\n' ∉ gap ∧ s = gap ++ t ∧ Fills later t := by
  constructor
  · intro h
    cases h with
    | last => exact absurd rfl hlater
    | next inLine rest => exact ⟨_, _, inLine, rfl, rest⟩
  · intro h
    obtain ⟨gap, t, inLine, rfl, rest⟩ := h
    exact .next inLine rest

/-- Any other piece begins with a character that stands for itself. -/
theorem fills_cons_cons :
    Fills ((c :: piece) :: later) s ↔ ∃ t, s = c :: t ∧ Fills (piece :: later) t := by
  constructor
  · intro h
    cases h with
    | last => exact ⟨piece, rfl, .last piece⟩
    | next inLine rest => exact ⟨_, rfl, .next inLine rest⟩
  · intro h
    obtain ⟨t, rfl, h⟩ := h
    cases h with
    | last => exact .last _
    | next inLine rest => exact .next inLine rest

/-- The texts that fit a pattern are made of its pieces. -/
theorem fits_iff : fits pattern s = true ↔ Fills (Text.pieces '*' pattern) s := by
  induction pattern generalizing s with
  | nil => simp [fits, Text.pieces, fills_singleton]
  | cons c pattern ih =>
    by_cases hc : c = '*'
    · have hpieces : Text.pieces '*' (c :: pattern) = [] :: Text.pieces '*' pattern := by
        simp [Text.pieces, hc]
      rw [hpieces, fills_nil_cons (Text.pieces_ne_nil _ _)]
      simp only [fits, hc, if_true, List.any_eq_true, mem_afterStar, ih]
      constructor
      · intro h
        obtain ⟨t, ⟨gap, inLine, hs⟩, hfills⟩ := h
        exact ⟨gap, t, inLine, hs, hfills⟩
      · intro h
        obtain ⟨gap, t, inLine, hs, hfills⟩ := h
        exact ⟨t, ⟨gap, inLine, hs⟩, hfills⟩
    · obtain ⟨piece, later, hpiece⟩ := List.exists_cons_of_ne_nil (Text.pieces_ne_nil '*' pattern)
      have hpieces : Text.pieces '*' (c :: pattern) = (c :: piece) :: later := by
        simp [Text.pieces, hc, hpiece]
      rw [hpieces, fills_cons_cons, ← hpiece]
      cases s with
      | nil => simp [fits, hc]
      | cons d s =>
        have hhead : c = d ↔ d = c := eq_comm
        simp [fits, hc, ih, hhead]

/-! ## Expressions -/

/-- A part of a regular expression. -/
inductive Part where
  /-- What is taken as it is. -/
  | literal (text : List Char)
  /-- Any run of characters but line feeds, as long as it may be. -/
  | anyRun
deriving DecidableEq, Repr

/-- The expression for a pattern: its pieces, with a run between each two. -/
def expression (pattern : List Char) : List Part :=
  ((Text.pieces '*' pattern).map Part.literal).intersperse .anyRun

/-- Whether the parts take up the whole text, one after the other. -/
inductive Matches : List Part → List Char → Prop
  | nil : Matches [] []
  | literal {text s : List Char} {later : List Part} (rest : Matches later s) :
      Matches (.literal text :: later) (text ++ s)
  | anyRun {run s : List Char} {later : List Part} (inLine : '\n' ∉ run) (rest : Matches later s) :
      Matches (.anyRun :: later) (run ++ s)

variable {parts : List Part} {pieces : List (List Char)}

theorem matches_literal_cons :
    Matches (.literal piece :: parts) s ↔ ∃ t, s = piece ++ t ∧ Matches parts t := by
  constructor
  · intro h
    cases h with
    | literal rest => exact ⟨_, rfl, rest⟩
  · intro h
    obtain ⟨t, rfl, rest⟩ := h
    exact .literal rest

theorem matches_anyRun_cons :
    Matches (.anyRun :: parts) s ↔ ∃ run t, '\n' ∉ run ∧ s = run ++ t ∧ Matches parts t := by
  constructor
  · intro h
    cases h with
    | anyRun inLine rest => exact ⟨_, _, inLine, rfl, rest⟩
  · intro h
    obtain ⟨run, t, inLine, rfl, rest⟩ := h
    exact .anyRun inLine rest

/-- Literals with runs between them match what is made of pieces with gaps between them. -/
theorem matches_intersperse_iff (hne : pieces ≠ []) :
    Matches ((pieces.map Part.literal).intersperse .anyRun) s ↔ Fills pieces s := by
  induction pieces generalizing s with
  | nil => exact absurd rfl hne
  | cons piece later ih =>
    rw [List.map_cons]
    cases later with
    | nil =>
      rw [List.map_nil, List.intersperse_singleton, matches_literal_cons, fills_singleton]
      constructor
      · intro h
        obtain ⟨t, rfl, rest⟩ := h
        cases rest
        exact List.append_nil piece
      · rintro rfl
        exact ⟨[], (List.append_nil s).symm, .nil⟩
    | cons next later =>
      rw [List.map_cons, List.intersperse_cons_cons, ← List.map_cons, matches_literal_cons]
      simp only [matches_anyRun_cons, ih (List.cons_ne_nil next later)]
      constructor
      · intro h
        obtain ⟨_, rfl, gap, t, inLine, rfl, rest⟩ := h
        exact .next inLine rest
      · intro h
        cases h with
        | next inLine rest => exact ⟨_, rfl, _, _, inLine, rfl, rest⟩

/-- **The matcher accepts what the expression for the pattern matches**, from end to end. -/
theorem fits_iff_matches : fits pattern s = true ↔ Matches (expression pattern) s := by
  rw [fits_iff, expression, matches_intersperse_iff (Text.pieces_ne_nil _ _)]

/-- Nothing but the star is special. -/
example : expression "a.*b".toList = [.literal "a.".toList, .anyRun, .literal "b".toList] := by
  decide

theorem isPattern_iff {entry : String} : isPattern entry = true ↔ '*' ∈ entry.toList := by
  simp [isPattern]

end Wildcard

/-! ## Lists of prerequisites -/

namespace Project

/-- Whether an entry stands for these tasks. -/
inductive ExpandsTo (project : Project) (entry : String) : List String → Prop
  | itself (plain : '*' ∉ entry.toList) : ExpandsTo project entry [entry]
  /-- All tasks that fit it, in order of their names. -/
  | fitting {names : List String} (star : '*' ∈ entry.toList) (ascending : names.Pairwise (· < ·))
      (mem_iff : ∀ name, name ∈ names ↔
        (project.task? name).isSome ∧ Wildcard.Fills (Text.pieces '*' entry.toList) name.toList) :
      ExpandsTo project entry names

theorem expandsTo (project : Project) (entry : String) :
    project.ExpandsTo entry
      (if Wildcard.isPattern entry then project.settings.tasks.keys.filter (Wildcard.admits entry)
        else [entry]) := by
  split
  · next hstar =>
    refine .fitting (Wildcard.isPattern_iff.1 hstar) ?_ ?_
    · exact project.settings.tasks.keys_ascending.filter _
    · intro name
      rw [List.mem_filter, mem_keys_tasks, Wildcard.admits_eq, Wildcard.fits_iff]
  · next hplain => exact .itself (mt Wildcard.isPattern_iff.2 hplain)

/-- **Each entry of a list of prerequisites is replaced by what it stands for**: by itself if it has
no star, and otherwise by the tasks whose names are made of its pieces. -/
theorem exists_expansion (project : Project) (entries : List String) :
    ∃ parts, List.Forall₂ project.ExpandsTo entries parts ∧
      project.expanded entries = parts.flatten := by
  refine ⟨entries.map _, ?_, List.flatMap_def⟩
  rw [List.forall₂_map_right_iff]
  exact List.forall₂_same.2 fun entry _ => project.expandsTo entry

end Project

end Stevedore
