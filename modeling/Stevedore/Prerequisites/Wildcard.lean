/-!
Names with stars in them. A star stands for any characters, none included, other than a line feed;
every other character stands for itself.

Which texts fit a pattern is said by `fits`, which tries all lengths for every star. To find it out
(`admits`), the rest of the pattern is compared with all ends of the text at once, from the end of
the pattern to its front; both are the same (`admits_eq`).
-/

namespace Stevedore.Wildcard

/-! ## Fitting -/

/-- What may be left of a text once a star has taken characters from its front. -/
def afterStar : List Char → List (List Char)
  | [] => [[]]
  | c :: s => (c :: s) :: if c = '\n' then [] else afterStar s

/-- Whether the whole text fits the pattern. -/
def fits : List Char → List Char → Bool
  | [], s => s.isEmpty
  | c :: pattern, s =>
    if c = '*' then (afterStar s).any (fits pattern)
    else
      match s with
      | [] => false
      | d :: s => c = d && fits pattern s

/-! ## All ends of a text at once -/

/-- For every end of a text, from the whole text to the empty one, whether it is empty. -/
def emptyEnds (s : List Char) : List Bool := s.map (fun _ => false) ++ [true]

/-- For every end of a text, whether it fits `c` and a pattern after it. The list says which ends
fit that pattern. -/
def literalEnds (c : Char) : List Char → List Bool → List Bool
  | d :: s, _ :: later => (c = d && later.headD false) :: literalEnds c s later
  | _, _ => [false]

/-- For every end of a text, whether it fits a star and a pattern after it. -/
def starEnds : List Char → List Bool → List Bool
  | c :: s, here :: later =>
    let ends := starEnds s later
    (here || (c ≠ '\n' && ends.headD false)) :: ends
  | _, ends => ends

/-- For every end of a text, whether it fits the pattern. -/
def fittingEnds : List Char → List Char → List Bool
  | [], s => emptyEnds s
  | c :: pattern, s =>
    if c = '*' then starEnds s (fittingEnds pattern s) else literalEnds c s (fittingEnds pattern s)

theorem fits_star_cons (pattern s : List Char) (c : Char) :
    fits ('*' :: pattern) (c :: s) =
      (fits pattern (c :: s) || (c ≠ '\n' && fits ('*' :: pattern) s)) := by
  by_cases h : c = '\n' <;> simp [fits, afterStar, h]

theorem fittingEnds_nil (pattern : List Char) : fittingEnds pattern [] = [fits pattern []] := by
  induction pattern with
  | nil => rfl
  | cons c pattern ih =>
    by_cases h : c = '*' <;> simp [fittingEnds, fits, afterStar, starEnds, literalEnds, h, ih]

/-- A star before a pattern, if the ends that fit the pattern are known. -/
theorem fittingEnds_star_cons {pattern : List Char}
    (h : ∀ c s, fittingEnds pattern (c :: s) = fits pattern (c :: s) :: fittingEnds pattern s)
    (c : Char) (s : List Char) :
    fittingEnds ('*' :: pattern) (c :: s) =
      fits ('*' :: pattern) (c :: s) :: fittingEnds ('*' :: pattern) s := by
  have step (c : Char) (s : List Char) :
      fittingEnds ('*' :: pattern) (c :: s) =
        (fits pattern (c :: s) || (c ≠ '\n' && (fittingEnds ('*' :: pattern) s).headD false)) ::
          fittingEnds ('*' :: pattern) s := by
    simp [fittingEnds, h, starEnds]
  induction s generalizing c with
  | nil => rw [step, fits_star_cons, fittingEnds_nil]; rfl
  | cons d s ih => rw [step, fits_star_cons, ih]; rfl

/-- The ends of a text are the text itself and the ends of what follows its first character. -/
theorem fittingEnds_cons (pattern : List Char) (c : Char) (s : List Char) :
    fittingEnds pattern (c :: s) = fits pattern (c :: s) :: fittingEnds pattern s := by
  induction pattern generalizing c s with
  | nil => rfl
  | cons p pattern ih =>
    by_cases hp : p = '*'
    · subst hp
      exact fittingEnds_star_cons ih c s
    · cases s with
      | nil => simp [fittingEnds, hp, ih, literalEnds, fittingEnds_nil, fits]
      | cons d s => simp [fittingEnds, hp, ih, literalEnds, fits]

/-- The first end of a text is the text. -/
theorem headD_fittingEnds (pattern s : List Char) :
    (fittingEnds pattern s).headD false = fits pattern s := by
  cases s with
  | nil => simp [fittingEnds_nil]
  | cons c s => simp [fittingEnds_cons]

/-! ## Names -/

/-- Whether the pattern has a star at all. -/
def isPattern (entry : String) : Bool := '*' ∈ entry.toList

/-- Whether `name` fits the pattern `entry`. -/
def admits (entry name : String) : Bool := (fittingEnds entry.toList name.toList).headD false

theorem admits_eq (entry name : String) : admits entry name = fits entry.toList name.toList :=
  headD_fittingEnds ..

example : admits "build-*-x" "build--x" ∧ admits "*" "" ∧ ¬ admits "a*c" "a\nc" ∧
    ¬ admits "a.c" "abc" := by decide

end Stevedore.Wildcard
