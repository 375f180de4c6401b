import Stevedore.Proofs.FileTrees

/-!
What becomes of a path when something is put behind it, and of the path that holds it.

A name without slashes that is put behind a path adds one component to it (`Path.cuts_join`),
however the path was spelled: it may be empty, or end in a slash, or in a dot. So the path without
its last component is the one that was started from. Whether a path starts at the root is seen from
its components (`Path.root_mem_key_iff`), and is not changed when it is cut, or put together.
-/

namespace Stevedore

/-- Whether this text names one thing in a directory. -/
structure IsPlainName (name : String) : Prop where
  not_slash : '/' ∉ name.toList
  ne_nil : name.toList ≠ []
  ne_here : name.toList ≠ ['.']
  ne_up : name.toList ≠ ['.', '.']

namespace IsPlainName

variable {name : String}

/-- A name that does not begin with a dot. -/
theorem of_head? {c : Char} (hslash : '/' ∉ name.toList) (hhead : name.toList.head? = some c)
    (hdot : c ≠ '.') : IsPlainName name := by
  obtain ⟨rest, hname⟩ := List.head?_eq_some_iff.1 hhead
  exact ⟨hslash, by simp [hname], by simp [hname, hdot], by simp [hname, hdot]⟩

theorem ofPiece_eq (h : IsPlainName name) : Component.ofPiece name.toList = .name name := by
  rw [Component.ofPiece, if_neg h.ne_here, if_neg h.ne_up, String.ofList_toList]

theorem isAbsolute_eq (h : IsPlainName name) : (⟨name⟩ : Path).isAbsolute = false := by
  rw [Path.isAbsolute, decide_eq_false_iff_not]
  intro hhead
  exact h.not_slash (List.mem_of_head? hhead)

theorem pieces_eq (h : IsPlainName name) : Text.pieces '/' name.toList = [name.toList] :=
  Text.pieces_of_not_mem h.not_slash

end IsPlainName

theorem Component.ofPiece_ne_root (piece : List Char) : ofPiece piece ≠ root := by
  unfold ofPiece
  split
  · simp
  · split <;> simp

namespace Path

variable {name : String}

/-! ## Paths from the root -/

theorem ne_root_of_mem_cutsOf {atFront : Bool} {passed : List Char} {pieces : List (List Char)}
    {cut : List Char × Component} (h : cut ∈ cutsOf atFront passed pieces) : cut.2 ≠ .root := by
  induction pieces generalizing atFront passed with
  | nil => simp [cutsOf] at h
  | cons piece pieces ih =>
    rw [cutsOf] at h
    split at h
    · exact ih h
    · rcases List.mem_cons.1 h with rfl | h
      · exact Component.ofPiece_ne_root piece
      · exact ih h

theorem root_not_mem_cuts (p : Path) : .root ∉ p.cuts.map (·.2) := by
  intro hroot
  obtain ⟨cut, hcut, hroot⟩ := List.mem_map.1 hroot
  unfold cuts at hcut
  split at hcut <;> exact ne_root_of_mem_cutsOf hcut hroot

theorem root_mem_key_iff {p : Path} : .root ∈ p.key ↔ p.isAbsolute = true := by
  rw [key, List.mem_append, or_iff_left p.root_not_mem_cuts]
  split <;> simp_all

theorem isAbsolute_append {text : String} (h : text ≠ "") (later : String) :
    (⟨text ++ later⟩ : Path).isAbsolute = (⟨text⟩ : Path).isAbsolute := by
  obtain ⟨c, rest, htext⟩ := List.exists_cons_of_ne_nil (l := text.toList) (by simpa using h)
  simp [isAbsolute, htext]

/-- What is seen from a directory is absolute if the directory is, or if it was already. -/
theorem isAbsolute_join (p q : Path) : (p.join q).isAbsolute = (p.isAbsolute || q.isAbsolute) := by
  obtain ⟨text⟩ := p
  unfold join
  split
  · next hq => rw [hq, Bool.or_true]
  · next hq =>
    rw [Bool.eq_false_iff.2 hq, Bool.or_false]
    by_cases hempty : text = ""
    · have hend : (decide (text = "") || decide (text.toList.getLast? = some '/')) = true := by
        simp [hempty]
      rw [if_pos hend, hempty, String.empty_append, Bool.eq_false_iff.2 hq]
      rfl
    · split
      · rw [isAbsolute_append hempty]
      · rw [String.append_assoc, isAbsolute_append hempty]

/-- The path that holds one starts from where that one starts, if it names anything. -/
theorem isAbsolute_parent? {p holder : Path} (h : p.parent? = some holder)
    (hne : holder.text ≠ "") : holder.isAbsolute = p.isAbsolute := by
  unfold parent? at h
  split at h
  · nomatch h
  · next last spelt component held hcuts =>
    have hcuts : p.cuts = held.reverse ++ (spelt, component) :: [last] := by
      simpa using List.reverse_eq_iff.1 hcuts
    rw [← Option.some.inj h, Bool.eq_iff_iff, ← root_mem_key_iff, key_of_cut hcuts,
      List.mem_append]
    have hnone : .root ∉ (held.reverse ++ [(spelt, component)]).map (·.2) := by
      intro hroot
      refine p.root_not_mem_cuts ?_
      rw [hcuts, List.append_cons, List.map_append]
      exact List.mem_append_left _ hroot
    rw [or_iff_left hnone]
    split <;> simp_all
  · rw [← Option.some.inj h] at hne ⊢
    split at hne
    · next habsolute => rw [if_pos habsolute, habsolute]; rfl
    · exact absurd rfl hne

/-! ## One component more -/

theorem cutsOf_concat (h : IsPlainName name) (atFront : Bool) (passed : List Char)
    (pieces : List (List Char)) :
    cutsOf atFront passed (pieces ++ [name.toList]) =
      cutsOf atFront passed pieces ++
        [(passed ++ Text.join '/' (pieces ++ [name.toList]), .name name)] := by
  induction pieces generalizing atFront passed with
  | nil => simp [cutsOf, h.ne_nil, h.ne_here, h.ofPiece_eq, Text.join]
  | cons piece pieces ih =>
    have hjoin : Text.join '/' (piece :: (pieces ++ [name.toList])) =
        piece ++ '/' :: Text.join '/' (pieces ++ [name.toList]) := by
      obtain ⟨first, rest, heq⟩ := List.exists_cons_of_ne_nil
        (List.append_ne_nil_of_right_ne_nil pieces (List.cons_ne_nil name.toList []))
      rw [heq, Text.join]
    rw [List.cons_append, cutsOf, cutsOf, ih, hjoin]
    split <;> simp

/-- An empty piece in the end, as after a slash, does not count. -/
theorem cutsOf_concat_nil (atFront : Bool) (passed : List Char) (pieces : List (List Char)) :
    cutsOf atFront passed (pieces ++ [[]]) = cutsOf atFront passed pieces := by
  induction pieces generalizing atFront passed with
  | nil => simp [cutsOf]
  | cons piece pieces ih => rw [List.cons_append, cutsOf, cutsOf, ih]

/-- A name behind a slash adds itself to the cuts. -/
theorem cuts_append_name (h : IsPlainName name) (s : List Char) :
    (⟨String.ofList (s ++ '/' :: name.toList)⟩ : Path).cuts =
      (⟨String.ofList s⟩ : Path).cuts ++ [(s ++ '/' :: name.toList, .name name)] := by
  have hpieces : ∀ s, Text.pieces '/' (s ++ '/' :: name.toList) =
      Text.pieces '/' s ++ [name.toList] := by
    intro s
    rw [Text.pieces_append, h.pieces_eq]
  have hjoin : ∀ s, Text.join '/' (Text.pieces '/' s ++ [name.toList]) =
      s ++ '/' :: name.toList := by
    intro s
    rw [← hpieces, Text.join_pieces]
  cases s with
  | nil =>
    rw [List.nil_append, cuts_of_absolute, h.pieces_eq, ← List.nil_append [name.toList],
      cutsOf_concat h]
    rfl
  | cons c s =>
    by_cases hc : c = '/'
    · subst hc
      rw [List.cons_append, cuts_of_absolute, cuts_of_absolute, hpieces, cutsOf_concat h, hjoin]
      rfl
    · have hhead : ∀ t, (c :: s ++ t).head? ≠ some '/' := by
        intro t
        simpa using hc
      rw [cuts_of_relative (hhead _), cuts_of_relative (by simpa using hhead []), hpieces,
        cutsOf_concat h, hjoin, List.nil_append]

/-- A slash in the end does not count. -/
theorem cuts_append_slash (s : List Char) :
    (⟨String.ofList (s ++ ['/'])⟩ : Path).cuts = (⟨String.ofList s⟩ : Path).cuts := by
  have hpieces : ∀ s, Text.pieces '/' (s ++ ['/']) = Text.pieces '/' s ++ [[]] := by
    intro s
    rw [Text.pieces_append]
    rfl
  cases s with
  | nil => decide
  | cons c s =>
    by_cases hc : c = '/'
    · subst hc
      rw [List.cons_append, cuts_of_absolute, cuts_of_absolute, hpieces, cutsOf_concat_nil]
    · have hhead : ∀ t, (c :: s ++ t).head? ≠ some '/' := by
        intro t
        simpa using hc
      rw [cuts_of_relative (hhead _), cuts_of_relative (by simpa using hhead []), hpieces,
        cutsOf_concat_nil]

/-- **A plain name that is put behind a path adds one component to it.** -/
theorem cuts_join (h : IsPlainName name) (p : Path) :
    (p.join ⟨name⟩).cuts = p.cuts ++ [((p.join ⟨name⟩).text.toList, .name name)] := by
  obtain ⟨text⟩ := p
  rw [join, h.isAbsolute_eq, if_neg Bool.false_ne_true]
  split
  · next hend =>
    rcases Bool.or_eq_true_iff.1 hend with hempty | hslash
    · have hempty : text = "" := of_decide_eq_true hempty
      have hname : (⟨name⟩ : Path).cuts = [(name.toList, .name name)] := by
        have hhead : name.toList.head? ≠ some '/' := of_decide_eq_false h.isAbsolute_eq
        rw [← String.ofList_toList (s := name), cuts_of_relative hhead, String.ofList_toList,
          h.pieces_eq, ← List.nil_append [name.toList], cutsOf_concat h]
        rfl
      have hnone : (⟨""⟩ : Path).cuts = [] := by decide
      rw [hempty, hnone, String.empty_append, hname, List.nil_append]
    · obtain ⟨s, hs⟩ := List.getLast?_eq_some_iff.1 (of_decide_eq_true hslash)
      have htext : text = String.ofList (s ++ ['/']) := by rw [← hs, String.ofList_toList]
      have hboth : text ++ name = String.ofList (s ++ '/' :: name.toList) := by
        rw [← String.toList_inj]
        simp [hs]
      rw [hboth, cuts_append_name h, htext, cuts_append_slash, String.toList_ofList]
  · have hboth : text ++ "/" ++ name = String.ofList (text.toList ++ '/' :: name.toList) := by
      rw [← String.toList_inj]
      simp
    rw [hboth, cuts_append_name h, String.ofList_toList, String.toList_ofList]

theorem key_join (h : IsPlainName name) (p : Path) :
    (p.join ⟨name⟩).key = p.key ++ [.name name] := by
  have habsolute : (p.join ⟨name⟩).isAbsolute = p.isAbsolute := by
    rw [isAbsolute_join, h.isAbsolute_eq, Bool.or_false]
  rw [key, key, cuts_join h, habsolute, List.map_append, ← List.append_assoc]
  rfl

theorem fileName?_join (h : IsPlainName name) (p : Path) :
    (p.join ⟨name⟩).fileName? = some name := by
  rw [fileName?, key_join h, List.getLast?_concat]

/-- The path without the name that was put behind it. -/
theorem parent?_join {cut : List Char × Component} {before : List (List Char × Component)}
    (h : IsPlainName name) {p : Path} (hp : p.cuts = before ++ [cut]) :
    (p.join ⟨name⟩).parent? = some ⟨String.ofList cut.1⟩ := by
  rw [parent?, cuts_join h, hp]
  simp

end Path

end Stevedore
