import Stevedore.Proofs.ProperNames

/-!
Which objects of the engine two projects have in common.

Images and volumes stay when a run is over, and all projects of a host share one engine. What keeps
the projects apart is that the name of a project is put before the name of the container or the
cache, with a dash in between. The dash may stand in all these names. So a text can be cut in two
places, and one project's name can go on with what is the beginning of the other's container or
cache (`IsCutLater`). Apart from that, a tag or a volume belongs to one project, and to one of its
containers or caches (`sharesObject_iff`).
-/

namespace Stevedore

variable {p q c d k m x front : String}

/-- Whether `p-c` and `q-d` are one text that is cut later in the second case: the name of `q` goes
on, behind that of `p`, with a name that `c` begins with. -/
def IsCutLater (p c q d : String) : Prop :=
  ∃ x, isReferenceName x = true ∧ q = p ++ "-" ++ x ∧ c = x ++ "-" ++ d

/-! ## Where a text is cut -/

theorem toList_dashed (p c : String) : (p ++ "-" ++ c).toList = p.toList ++ '-' :: c.toList := by
  simp

/-- Where `q` goes on behind `p`, it does so with the dash. -/
theorem eq_or_exists_of_cut {mid : List Char} (hq : q.toList = p.toList ++ mid)
    (hc : '-' :: c.toList = mid ++ '-' :: d.toList) :
    p = q ∧ c = d ∨ ∃ x, q = p ++ "-" ++ x ∧ c = x ++ "-" ++ d := by
  cases mid with
  | nil =>
    rw [List.append_nil, String.toList_inj] at hq
    exact .inl ⟨hq.symm, String.toList_inj.1 (List.cons.inj hc).2⟩
  | cons e x =>
    obtain ⟨rfl, hrest⟩ := List.cons.inj hc
    refine .inr ⟨.ofList x, ?_, ?_⟩
    · rw [← String.toList_inj, toList_dashed, String.toList_ofList, hq]
    · rw [← String.toList_inj, toList_dashed, String.toList_ofList]
      exact hrest

/-- Two texts with a dash in each are equal if they have the same parts, or if one of the dashes is
in the first part of the other text. -/
theorem dashed_eq_dashed_iff : p ++ "-" ++ c = q ++ "-" ++ d ↔
    p = q ∧ c = d ∨ (∃ x, q = p ++ "-" ++ x ∧ c = x ++ "-" ++ d) ∨
      ∃ x, p = q ++ "-" ++ x ∧ d = x ++ "-" ++ c := by
  constructor
  · intro h
    rw [← String.toList_inj, toList_dashed, toList_dashed] at h
    rcases List.append_eq_append_iff.1 h with ⟨mid, hq, hc⟩ | ⟨mid, hp, hd⟩
    · exact (eq_or_exists_of_cut hq hc).imp_right .inl
    · rcases eq_or_exists_of_cut hp hd with ⟨rfl, rfl⟩ | hcut
      · exact .inl ⟨rfl, rfl⟩
      · exact .inr (.inr hcut)
  · rintro (⟨rfl, rfl⟩ | ⟨x, rfl, rfl⟩ | ⟨x, rfl, rfl⟩)
    · rfl
    · simp only [String.append_assoc]
    · simp only [String.append_assoc]

theorem IsMark.isAlphanum_eq {c : Char} (h : IsMark c) : c.isAlphanum = false := by
  rcases h with rfl | rfl | rfl
  · decide
  · decide
  · decide

/-- What a name ends in is a name, if it begins with a letter or a digit. -/
theorem isReferenceName_of_append (h : isReferenceName (front ++ x) = true) (hne : x ≠ "")
    (hx : ∀ c ∈ x.toList.head?, c.isAlphanum = true) : isReferenceName x = true := by
  rw [isReferenceName_iff_isProper, String.toList_append] at h
  rw [isReferenceName_iff_isProper]
  refine h.of_append (by simpa using hne) fun c hc => ?_
  refine (h.chars c (List.mem_append_right _ (List.mem_of_head? hc))).resolve_right fun hmark => ?_
  exact Bool.false_ne_true (hmark.isAlphanum_eq.symm.trans (hx c hc))

/-- What is between two dashes is a name, if a letter or a digit comes first. -/
theorem isCutLater_iff (hq : isReferenceName q = true)
    (hc : ∀ e ∈ c.toList.head?, e.isAlphanum = true) :
    IsCutLater p c q d ↔ ∃ x, q = p ++ "-" ++ x ∧ c = x ++ "-" ++ d := by
  constructor
  · rintro ⟨x, -, hqx, hcx⟩
    exact ⟨x, hqx, hcx⟩
  · rintro ⟨x, rfl, rfl⟩
    have hne : x ≠ "" := by
      rintro rfl
      exact absurd (hc '-' (by simp)) (by decide)
    refine ⟨x, isReferenceName_of_append hq hne fun e he => hc e ?_, rfl, rfl⟩
    rw [toList_dashed, List.head?_append, he]
    rfl

theorem isAlphanum_of_isReferenceName (h : isReferenceName c = true) :
    ∀ e ∈ c.toList.head?, e.isAlphanum = true := by
  intro e he
  obtain ⟨e', hhead, hword⟩ := (isReferenceName_iff.1 h).begins
  rw [hhead] at he
  rw [← Option.some.inj he, isAlphanum_eq, hword, Bool.or_true]

theorem isAlphanum_of_isVolumeName (h : isVolumeName k = true) :
    ∀ e ∈ k.toList.head?, e.isAlphanum = true := by
  intro e he
  unfold isVolumeName at h
  split at h
  · cases h
  · next c rest hname =>
    rw [hname] at he
    rw [← Option.some.inj he]
    exact (Bool.and_eq_true_iff.1 h).1

/-- A text with a dash in it, one way to be cut or another. -/
theorem dashed_eq_iff_isCutLater (hp : isReferenceName p = true) (hq : isReferenceName q = true)
    (hc : ∀ e ∈ c.toList.head?, e.isAlphanum = true)
    (hd : ∀ e ∈ d.toList.head?, e.isAlphanum = true) :
    p ++ "-" ++ c = q ++ "-" ++ d ↔ p = q ∧ c = d ∨ IsCutLater p c q d ∨ IsCutLater q d p c := by
  rw [dashed_eq_dashed_iff, isCutLater_iff hq hc, isCutLater_iff hp hd]

/-! ## What projects have in common -/

theorem store_volume_eq_iff {base base' : Path} :
    (⟨p, .volume, base⟩ : CacheStores).store k = (⟨q, .volume, base'⟩ : CacheStores).store m ↔
      p ++ "-" ++ k = q ++ "-" ++ m := by
  have hstore : ∀ (p k : String) (base : Path), (⟨p, .volume, base⟩ : CacheStores).store k =
      .volume ("dockhand-cache-" ++ (p ++ "-" ++ k)) := by
    intro p k base
    rw [← String.append_assoc, ← String.append_assoc]
    rfl
  rw [hstore, hstore, CacheStore.volume.injEq, String.append_right_inj]

/-- **Projects share an image's tag or a cache's volume only where one of their names goes on with
what belongs to the other**: besides that, a tag tells the project and the container, and a volume
the project and the cache. -/
theorem sharesObject_iff (hp : isReferenceName p = true) (hq : isReferenceName q = true)
    (hc : isReferenceName c = true) (hd : isReferenceName d = true) (hk : isVolumeName k = true)
    (hm : isVolumeName m = true) (base base' : Path) :
    (imageTag p c = imageTag q d ↔ p = q ∧ c = d ∨ IsCutLater p c q d ∨ IsCutLater q d p c) ∧
      ((⟨p, .volume, base⟩ : CacheStores).store k = (⟨q, .volume, base'⟩ : CacheStores).store m ↔
        p = q ∧ k = m ∨ IsCutLater p k q m ∨ IsCutLater q m p k) := by
  rw [store_volume_eq_iff]
  exact ⟨dashed_eq_iff_isCutLater hp hq (isAlphanum_of_isReferenceName hc)
      (isAlphanum_of_isReferenceName hd),
    dashed_eq_iff_isCutLater hp hq (isAlphanum_of_isVolumeName hk) (isAlphanum_of_isVolumeName hm)⟩

/-! ## A fair and its northern part -/

namespace Fair

/-- A stall at the fair, with its tools. -/
def settings (project stall tools : String) : ProjectSettings where
  projectName := project
  containers := .ofList [(stall, {
    buildDirectory := some ⟨"stall"⟩
    volumes := [.cache tools "/tools"] })]

/-- The fair has a stall in the north. -/
def fair : Project where
  settings := settings "fair" "north-stall" "north-tools"
  valid := by decide

/-- The north of it is a fair of its own, with a stall. -/
def north : Project where
  settings := settings "fair-north" "stall" "tools"
  valid := by decide

theorem eq_north_of_isCutLater (h : IsCutLater "fair" c "fair-north" d) :
    c = "north" ++ "-" ++ d := by
  obtain ⟨x, -, hproject, rfl⟩ := h
  have hparts : "fair-north" = "fair" ++ "-" ++ "north" := by decide
  rw [hparts, String.append_right_inj] at hproject
  rw [hproject]

theorem not_isCutLater_fair : ¬ IsCutLater "fair-north" c "fair" d := by
  rintro ⟨x, -, hproject, -⟩
  have hlength := congrArg String.length hproject
  rw [String.length_append, String.length_append] at hlength
  have hfair : "fair".length < "fair-north".length := by decide
  omega

/-- The fair's other stall, in the south, has nothing to do with that one. -/
theorem south_stall_apart :
    (isReferenceName "fair" = true ∧ isReferenceName "fair-north" = true ∧
      isReferenceName "south-stall" = true ∧ isReferenceName "stall" = true ∧
      isVolumeName "South.tools" = true ∧ isVolumeName "tools" = true) ∧
    imageTag "fair" "south-stall" ≠ imageTag "fair-north" "stall" ∧
    (⟨"fair", .volume, ⟨"."⟩⟩ : CacheStores).store "South.tools" ≠
      (⟨"fair-north", .volume, ⟨"."⟩⟩ : CacheStores).store "tools" := by
  have hapart : ∀ c d : String, c ≠ "north" ++ "-" ++ d → ¬ ("fair" = "fair-north" ∧ c = d ∨
      IsCutLater "fair" c "fair-north" d ∨ IsCutLater "fair-north" d "fair" c) := by
    rintro c d hne (⟨hproject, -⟩ | hlater | hlater)
    · exact absurd hproject (by decide)
    · exact hne (eq_north_of_isCutLater hlater)
    · exact not_isCutLater_fair hlater
  obtain ⟨htag, hstore⟩ := sharesObject_iff (p := "fair") (q := "fair-north") (c := "south-stall")
    (d := "stall") (k := "South.tools") (m := "tools") (by decide) (by decide) (by decide)
    (by decide) (by decide) (by decide) ⟨"."⟩ ⟨"."⟩
  refine ⟨by decide, ?_, ?_⟩
  · rw [Ne, htag]
    exact hapart _ _ (by decide)
  · rw [Ne, hstore]
    exact hapart _ _ (by decide)

/-- The two projects tag the images of their stalls alike, and keep their tools in one volume. -/
theorem stalls_are_one :
    (fair.container? "north-stall").isSome ∧ (north.container? "stall").isSome ∧
      fair.MountsCache "north-tools" ∧ north.MountsCache "tools" ∧ fair.name ≠ north.name ∧
      imageTag fair.name "north-stall" = imageTag north.name "stall" ∧
      fair.cacheStores.store "north-tools" = north.cacheStores.store "tools" := by
  refine ⟨by decide, by decide, ⟨"north-stall", _, "/tools", rfl, by simp⟩,
    ⟨"stall", _, "/tools", rfl, by simp⟩, by decide, by decide, by decide⟩

end Fair

end Stevedore
