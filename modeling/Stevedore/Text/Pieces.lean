/-!
Cutting a text, or any list, at every occurrence of one element. A text with `n` separators has
`n + 1` pieces, some of them perhaps empty, and joining them again gives the text back
(`join_pieces`).
-/

namespace Stevedore.Text

variable {α : Type} [DecidableEq α]

/-- The pieces of `s` between the occurrences of `sep`. -/
def pieces (sep : α) : List α → List (List α)
  | [] => [[]]
  | c :: s =>
    if c = sep then [] :: pieces sep s
    else
      match pieces sep s with
      | [] => [[c]]
      | p :: ps => (c :: p) :: ps

/-- The pieces with one `sep` between each two. -/
def join {α : Type} (sep : α) : List (List α) → List α
  | [] => []
  | [p] => p
  | p :: q :: ps => p ++ sep :: join sep (q :: ps)

/-- The pieces of a text as texts. -/
def splitText (sep : Char) (s : String) : List String :=
  (pieces sep s.toList).map String.ofList

theorem pieces_ne_nil (sep : α) (s : List α) : pieces sep s ≠ [] := by
  cases s with
  | nil => simp [pieces]
  | cons c s =>
    unfold pieces
    split
    · simp
    · split <;> simp

theorem join_pieces (sep : α) (s : List α) : join sep (pieces sep s) = s := by
  induction s with
  | nil => rfl
  | cons c s ih =>
    obtain ⟨p, ps, h⟩ := List.exists_cons_of_ne_nil (pieces_ne_nil sep s)
    rw [h] at ih
    unfold pieces
    split
    · next hc => simp [h, join, ih, hc]
    · rw [h]
      cases ps <;> simpa [join] using ih

/-- No piece holds the separator. -/
theorem not_mem_of_mem_pieces {sep : α} {s p : List α} (h : p ∈ pieces sep s) : sep ∉ p := by
  induction s generalizing p with
  | nil => simp_all [pieces]
  | cons c s ih =>
    obtain ⟨q, qs, hq⟩ := List.exists_cons_of_ne_nil (pieces_ne_nil sep s)
    rw [hq] at ih
    unfold pieces at h
    split at h
    · rcases List.mem_cons.1 h with rfl | h
      · simp
      · exact ih (hq ▸ h)
    · next hc =>
      rw [hq] at h
      rcases List.mem_cons.1 h with rfl | h
      · simpa [Ne.symm hc] using ih (List.mem_cons_self ..)
      · exact ih (List.mem_cons_of_mem _ h)

/-- A piece holds nothing else than the text. -/
theorem mem_of_mem_pieces {sep c : α} {s p : List α} (hp : p ∈ pieces sep s) (hc : c ∈ p) :
    c ∈ s := by
  induction s generalizing p with
  | nil =>
    obtain rfl := List.mem_singleton.1 hp
    exact hc
  | cons d s ih =>
    obtain ⟨q, qs, hq⟩ := List.exists_cons_of_ne_nil (pieces_ne_nil sep s)
    unfold pieces at hp
    split at hp
    · rcases List.mem_cons.1 hp with rfl | hp
      · cases hc
      · exact List.mem_cons_of_mem d (ih hp hc)
    · rw [hq] at hp ih
      rcases List.mem_cons.1 hp with rfl | hp
      · rcases List.mem_cons.1 hc with rfl | hc
        · exact List.mem_cons_self ..
        · exact List.mem_cons_of_mem d (ih (List.mem_cons_self ..) hc)
      · exact List.mem_cons_of_mem d (ih (List.mem_cons_of_mem q hp) hc)

theorem pieces_append (sep : α) (s t : List α) :
    pieces sep (s ++ sep :: t) = pieces sep s ++ pieces sep t := by
  induction s with
  | nil => simp [pieces]
  | cons c s ih =>
    obtain ⟨p, ps, hs⟩ := List.exists_cons_of_ne_nil (pieces_ne_nil sep s)
    rw [List.cons_append, pieces, pieces, ih, hs]
    split <;> rfl

theorem pieces_of_not_mem {sep : α} {s : List α} (h : sep ∉ s) : pieces sep s = [s] := by
  induction s with
  | nil => rfl
  | cons c s ih =>
    obtain ⟨hc, hs⟩ : sep ≠ c ∧ sep ∉ s := by simpa using h
    rw [pieces, if_neg hc.symm, ih hs]

/-- Pieces that were joined come apart again. -/
theorem pieces_join {sep : α} {ps : List (List α)} (hne : ps ≠ []) (h : ∀ p ∈ ps, sep ∉ p) :
    pieces sep (join sep ps) = ps := by
  induction ps with
  | nil => exact absurd rfl hne
  | cons p ps ih =>
    obtain ⟨hp, hps⟩ := List.forall_mem_cons.1 h
    cases ps with
    | nil => exact pieces_of_not_mem hp
    | cons q qs =>
      rw [join, pieces_append, pieces_of_not_mem hp, ih (List.cons_ne_nil q qs) hps,
        List.singleton_append]

/-! ## Pieces of texts -/

variable {sep : Char} {s t : String}

theorem splitText_ne_nil (sep : Char) (s : String) : splitText sep s ≠ [] := by
  simp [splitText, pieces_ne_nil]

theorem splitText_append (sep : Char) (s t : String) :
    splitText sep (s ++ String.singleton sep ++ t) = splitText sep s ++ splitText sep t := by
  rw [splitText, String.toList_append, String.toList_append, String.toList_singleton,
    List.append_assoc, List.singleton_append, pieces_append, List.map_append]
  rfl

theorem splitText_of_not_mem (h : sep ∉ s.toList) : splitText sep s = [s] := by
  rw [splitText, pieces_of_not_mem h, List.map_singleton, String.ofList_toList]

/-- The pieces tell the text. -/
theorem splitText_inj (sep : Char) : splitText sep s = splitText sep t ↔ s = t := by
  constructor
  · intro h
    have hpieces : pieces sep s.toList = pieces sep t.toList :=
      (List.map_inj_right fun _ _ => String.ofList_inj.1).1 h
    rw [← String.toList_inj, ← join_pieces sep s.toList, hpieces, join_pieces]
  · exact congrArg _

theorem splitText_intercalate {texts : List String} (h : texts ≠ []) :
    splitText sep ((String.singleton sep).intercalate texts) = texts.flatMap (splitText sep) := by
  induction texts with
  | nil => exact absurd rfl h
  | cons s texts ih =>
    cases texts with
    | nil => simp
    | cons t texts =>
      rw [String.intercalate_cons_of_ne_nil (List.cons_ne_nil t texts), splitText_append,
        ih (List.cons_ne_nil t texts), ← List.flatMap_cons]

/-- Texts without the separator are not cut. -/
theorem flatMap_splitText {texts : List String} (h : ∀ t ∈ texts, sep ∉ t.toList) :
    texts.flatMap (splitText sep) = texts := by
  induction texts with
  | nil => rfl
  | cons s texts ih =>
    obtain ⟨hs, htexts⟩ := List.forall_mem_cons.1 h
    rw [List.flatMap_cons, splitText_of_not_mem hs, ih htexts, List.singleton_append]

theorem not_mem_of_mem_splitText (h : t ∈ splitText sep s) : sep ∉ t.toList := by
  obtain ⟨p, hp, rfl⟩ := List.mem_map.1 h
  rw [String.toList_ofList]
  exact not_mem_of_mem_pieces hp

theorem mem_of_mem_splitText {c : Char} (ht : t ∈ splitText sep s) (hc : c ∈ t.toList) :
    c ∈ s.toList := by
  obtain ⟨p, hp, rfl⟩ := List.mem_map.1 ht
  rw [String.toList_ofList] at hc
  exact mem_of_mem_pieces hp hc

theorem not_mem_intercalate {c : Char} {texts : List String} (hsep : c ≠ sep)
    (h : ∀ t ∈ texts, c ∉ t.toList) : c ∉ ((String.singleton sep).intercalate texts).toList := by
  induction texts with
  | nil => simp
  | cons s texts ih =>
    obtain ⟨hs, htexts⟩ := List.forall_mem_cons.1 h
    cases texts with
    | nil => simpa using hs
    | cons t texts =>
      rw [String.intercalate_cons_of_ne_nil (List.cons_ne_nil t texts)]
      simpa [hs, hsep] using ih htexts

/-! ## Runs -/

/-- A run ends in front of the first element that does not belong to it. -/
theorem takeWhile_dropWhile_eq_iff {α : Type} {p : α → Bool} {s run rest : List α} :
    s.takeWhile p = run ∧ s.dropWhile p = rest ↔
      s = run ++ rest ∧ (∀ c ∈ run, p c = true) ∧ ∀ c ∈ rest.head?, p c = false := by
  constructor
  · rintro ⟨rfl, rfl⟩
    refine ⟨List.takeWhile_append_dropWhile.symm, List.all_eq_true.1 List.all_takeWhile, ?_⟩
    intro c hc
    have hnot := List.head?_dropWhile_not p s
    rw [hc] at hnot
    exact hnot
  · rintro ⟨rfl, hrun, hrest⟩
    rw [List.takeWhile_append_of_pos hrun, List.dropWhile_append_of_pos hrun]
    cases rest with
    | nil => simp
    | cons c rest => simp [hrest c rfl]

end Stevedore.Text
