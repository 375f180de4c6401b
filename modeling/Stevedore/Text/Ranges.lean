/-!
Sets of characters as ranges of code points. Each range is given by its ends, and the ranges ascend,
so the search for a character ends at the first range above it.
-/

namespace Stevedore.Text

/-- Ranges of code points, in ascending order, each with its first and its last one. -/
abbrev Ranges := List (Nat × Nat)

/-- Whether a code point lies in one of the ranges. -/
def Ranges.holds : Ranges → Nat → Bool
  | [], _ => false
  | (first, last) :: rest, n => first ≤ n && (n ≤ last || Ranges.holds rest n)

/-- Whether each range comes after the one before it. -/
def Ranges.ascend : Ranges → Bool
  | [] => true
  | [(first, last)] => first ≤ last
  | (first, last) :: next :: rest => first ≤ last && last < next.1 && Ranges.ascend (next :: rest)

/-- All code points of ranges that ascend are at or above the first one. -/
theorem Ranges.first_le {r : Nat × Nat} {rs : Ranges} (h : Ranges.ascend (r :: rs))
    {p : Nat × Nat} (hp : p ∈ r :: rs) : r.1 ≤ p.1 := by
  induction rs generalizing r with
  | nil => simp at hp; simp [hp]
  | cons s rs ih =>
    simp only [ascend, Bool.and_eq_true, decide_eq_true_eq] at h
    rcases List.mem_cons.1 hp with rfl | hp
    · exact Nat.le_refl _
    · have := ih h.2 hp
      omega

/-- Ending the search early misses nothing. -/
theorem Ranges.holds_iff {rs : Ranges} (h : rs.ascend) {n : Nat} :
    rs.holds n ↔ ∃ p ∈ rs, p.1 ≤ n ∧ n ≤ p.2 := by
  induction rs with
  | nil => simp [holds]
  | cons r rs ih =>
    have hrs : Ranges.ascend rs := by
      cases rs with
      | nil => rfl
      | cons s rs =>
        simp only [ascend, Bool.and_eq_true] at h
        exact h.2
    simp only [holds, Bool.and_eq_true, Bool.or_eq_true, decide_eq_true_eq, ih hrs]
    constructor
    · rintro ⟨hf, hl | ⟨p, hp, hn⟩⟩
      · exact ⟨r, List.mem_cons_self, hf, hl⟩
      · exact ⟨p, List.mem_cons_of_mem _ hp, hn⟩
    · rintro ⟨p, hp, hn⟩
      have := Ranges.first_le h hp
      refine ⟨by omega, ?_⟩
      rcases List.mem_cons.1 hp with rfl | hp
      · exact .inl hn.2
      · exact .inr ⟨p, hp, hn⟩

end Stevedore.Text
