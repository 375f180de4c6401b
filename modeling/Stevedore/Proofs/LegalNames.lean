import Stevedore.Cache
import Stevedore.Naming
import Stevedore.NextSteps
import Stevedore.Proofs.Paths

/-!
Whatever is named after a project has a name that the engine accepts.

The names of projects and containers are words with separators between them (`IsReference`), which
is what the automaton accepts (`isReferenceName_iff`). Two of them with a separator in between are
one again, so that image tags are names of the same kind. They are made of few characters, and begin
with a letter or a digit. Volumes, networks and containers are named after them, with parts that
come from elsewhere: what is sanitised has no other characters either, whatever it was made of, and
the names of caches are as restricted, so that they name something right in the directory for
caches.
-/

namespace Stevedore

/-! ## Words and separators -/

/-- Whether these characters are one word of a name. -/
structure IsWord (s : List Char) : Prop where
  ne_nil : s ≠ []
  all : ∀ c ∈ s, isWordChar c = true

/-- What may stand between two words. -/
inductive IsSeparator : List Char → Prop where
  | period : IsSeparator ['.']
  | underscore : IsSeparator ['_']
  | underscores : IsSeparator ['_', '_']
  | dashes (more : Nat) : IsSeparator (List.replicate (more + 1) '-')

/-- Words with a separator between each two. -/
inductive IsReference : List Char → Prop where
  | word {w : List Char} (hw : IsWord w) : IsReference w
  | joined {r s w : List Char} (hr : IsReference r) (hs : IsSeparator s) (hw : IsWord w) :
    IsReference (r ++ s ++ w)

variable {c : Char} {r s t w : List Char}

theorem isWord_singleton (hc : isWordChar c = true) : IsWord [c] :=
  ⟨List.cons_ne_nil c [], by simpa using hc⟩

theorem IsWord.concat (hw : IsWord w) (hc : isWordChar c = true) : IsWord (w ++ [c]) :=
  ⟨by simp, List.forall_mem_append.2 ⟨hw.all, by simpa using hc⟩⟩

namespace IsReference

/-- One more letter makes the last word longer. -/
theorem concat (h : IsReference r) (hc : isWordChar c = true) : IsReference (r ++ [c]) := by
  cases h with
  | word hw => exact .word (hw.concat hc)
  | joined hr hs hw =>
    rw [List.append_assoc]
    exact .joined hr hs (hw.concat hc)

/-- Two names with a separator between them are one. -/
theorem append (hr : IsReference r) (hs : IsSeparator s) (ht : IsReference t) :
    IsReference (r ++ s ++ t) := by
  induction ht with
  | word hw => exact .joined hr hs hw
  | joined _ hs' hw ih =>
    rw [← List.append_assoc, ← List.append_assoc]
    exact .joined ih hs' hw

end IsReference

/-! ## What the automaton accepts -/

namespace NameState

/-- Which texts lead to a state. -/
inductive Spells : NameState → List Char → Prop where
  | start : Spells .start []
  | word {r : List Char} (hr : IsReference r) : Spells .word r
  | afterPeriod {r : List Char} (hr : IsReference r) : Spells .afterPeriod (r ++ ['.'])
  | afterUnderscore {r : List Char} (hr : IsReference r) : Spells .afterUnderscore (r ++ ['_'])
  | afterTwoUnderscores {r : List Char} (hr : IsReference r) :
    Spells .afterTwoUnderscores (r ++ ['_', '_'])
  | afterDashes {r : List Char} (hr : IsReference r) (more : Nat) :
    Spells .afterDashes (r ++ List.replicate (more + 1) '-')

variable {state state' : NameState}

theorem Spells.concat_wordChar (h : state.Spells s) (hc : isWordChar c = true) :
    Spells .word (s ++ [c]) := by
  have hw := isWord_singleton hc
  cases h with
  | start => exact .word (.word hw)
  | word hr => exact .word (hr.concat hc)
  | afterPeriod hr => exact .word (.joined hr .period hw)
  | afterUnderscore hr => exact .word (.joined hr .underscore hw)
  | afterTwoUnderscores hr => exact .word (.joined hr .underscores hw)
  | afterDashes hr more => exact .word (.joined hr (.dashes more) hw)

/-- One more character is read. -/
theorem Spells.next (h : state.Spells s) (hnext : state.next c = some state') :
    state'.Spells (s ++ [c]) := by
  unfold NameState.next at hnext
  split at hnext
  · next hc =>
    rw [← Option.some.inj hnext]
    exact h.concat_wordChar hc
  · split at hnext
    · cases h with
      | word hr =>
        rw [← Option.some.inj hnext]
        exact .afterPeriod hr
    · cases h with
      | word hr =>
        rw [← Option.some.inj hnext]
        exact .afterUnderscore hr
    · cases h with
      | afterUnderscore hr =>
        rw [← Option.some.inj hnext, List.append_assoc]
        exact .afterTwoUnderscores hr
    · cases h with
      | word hr =>
        rw [← Option.some.inj hnext]
        exact .afterDashes hr 0
    · cases h with
      | afterDashes hr more =>
        rw [← Option.some.inj hnext, List.append_assoc, ← List.replicate_succ']
        exact .afterDashes hr (more + 1)
    · nomatch hnext

theorem Spells.read (h : state.Spells s) (hread : state.read t = some state') :
    state'.Spells (s ++ t) := by
  induction t generalizing state s with
  | nil =>
    rw [List.append_nil, ← Option.some.inj hread]
    exact h
  | cons c t ih =>
    obtain ⟨mid, hnext, hrest⟩ := Option.bind_eq_some_iff.1 hread
    rw [List.append_cons]
    exact ih (h.next hnext) hrest

theorem read_append (state : NameState) (s t : List Char) :
    state.read (s ++ t) = (state.read s).bind fun mid => mid.read t := by
  induction s generalizing state with
  | nil => rfl
  | cons c s ih =>
    rw [List.cons_append, NameState.read, NameState.read, Option.bind_assoc]
    simp only [ih]

theorem next_of_isWordChar (state : NameState) (hc : isWordChar c = true) :
    state.next c = some .word := by
  unfold NameState.next
  rw [if_pos hc]

/-- A word can be read in every state. -/
theorem read_of_isWord (state : NameState) (hw : IsWord w) : state.read w = some .word := by
  obtain ⟨hne, hall⟩ := hw
  induction w generalizing state with
  | nil => exact absurd rfl hne
  | cons c w ih =>
    obtain ⟨hc, hrest⟩ := List.forall_mem_cons.1 hall
    rw [NameState.read, next_of_isWordChar state hc, Option.bind_some]
    cases w with
    | nil => rfl
    | cons d w => exact ih .word (List.cons_ne_nil d w) hrest

/-- A separator can be read after a word. -/
theorem exists_read_of_isSeparator (hs : IsSeparator s) : ∃ state, word.read s = some state := by
  cases hs with
  | period => exact ⟨.afterPeriod, by decide⟩
  | underscore => exact ⟨.afterUnderscore, by decide⟩
  | underscores => exact ⟨.afterTwoUnderscores, by decide⟩
  | dashes more =>
    have hmore : ∀ more, afterDashes.read (List.replicate more '-') = some .afterDashes := by
      intro more
      induction more with
      | zero => rfl
      | succ more ih => exact ih
    exact ⟨.afterDashes, hmore more⟩

theorem read_of_isReference (hr : IsReference r) : start.read r = some .word := by
  induction hr with
  | word hw => exact read_of_isWord .start hw
  | joined _ hs hw ih =>
    obtain ⟨state, hstate⟩ := exists_read_of_isSeparator hs
    rw [read_append, read_append, ih, Option.bind_some, hstate, Option.bind_some]
    exact read_of_isWord state hw

end NameState

/-- **The names that are accepted are words with separators between them.** -/
theorem isReferenceName_iff {name : String} :
    isReferenceName name = true ↔ IsReference name.toList := by
  rw [isReferenceName, decide_eq_true_iff]
  constructor
  · intro hread
    cases NameState.Spells.start.read hread with
    | word hr => exact hr
  · exact NameState.read_of_isReference

/-! ## Characters -/

/-- What the names of networks and containers are made of. -/
def isNameChar (c : Char) : Bool := isWordChar c || c = '-' || c = '_' || c = '.'

/-- Whether a network or a container may have this name. -/
structure IsEngineName (name : String) : Prop where
  begins : ∃ c, name.toList.head? = some c ∧ isWordChar c = true
  all : ∀ c ∈ name.toList, isNameChar c = true

theorem isUpper_iff : c.isUpper = true ↔ 65 ≤ c.val.toNat ∧ c.val.toNat ≤ 90 :=
  decide_eq_true_iff

theorem isLower_iff : c.isLower = true ↔ 97 ≤ c.val.toNat ∧ c.val.toNat ≤ 122 := by
  show (_ && _) = true ↔ _
  rw [Bool.and_eq_true, decide_eq_true_iff, decide_eq_true_iff]
  exact Iff.rfl

theorem isDigit_iff : c.isDigit = true ↔ 48 ≤ c.val.toNat ∧ c.val.toNat ≤ 57 := by
  show (_ && _) = true ↔ _
  rw [Bool.and_eq_true, decide_eq_true_iff, decide_eq_true_iff]
  exact Iff.rfl

theorem isAlphanum_eq (c : Char) : c.isAlphanum = (c.isUpper || isWordChar c) := by
  show (c.isUpper || c.isLower || c.isDigit) = (c.isUpper || (c.isLower || c.isDigit))
  rw [Bool.or_assoc]

theorem isUpper_of_isWordChar (h : isWordChar c = true) : c.isUpper = false := by
  rw [isWordChar, Bool.or_eq_true, isLower_iff, isDigit_iff] at h
  rw [Bool.eq_false_iff, Ne, isUpper_iff]
  omega

theorem toLower_of_not_isUpper (h : c.isUpper = false) : c.toLower = c := by
  unfold Char.toLower
  split
  · next hupper => exact absurd (isUpper_iff.2 hupper) (by simp [h])
  · rfl

theorem isLower_toLower (h : c.isUpper = true) : c.toLower.isLower = true := by
  unfold Char.toLower
  split
  · obtain ⟨hlow, hhigh⟩ := isUpper_iff.1 h
    rw [isLower_iff]
    show 97 ≤ (c.val + 32).toNat ∧ (c.val + 32).toNat ≤ 122
    rw [UInt32.toNat_add]
    show 97 ≤ (c.val.toNat + 32) % 4294967296 ∧ (c.val.toNat + 32) % 4294967296 ≤ 122
    omega
  · next hnot => exact absurd (isUpper_iff.1 h) hnot

theorem isNameChar_iff :
    isNameChar c = true ↔ isWordChar c = true ∨ c = '-' ∨ c = '_' ∨ c = '.' := by
  simp [isNameChar, or_assoc]

theorem isNameChar_of_isWordChar (h : isWordChar c = true) : isNameChar c = true :=
  isNameChar_iff.2 (.inl h)

/-- What may stand in a name is taken over when a text is sanitised. -/
theorem kept_of_isNameChar (h : isNameChar c = true) :
    (c.isAlphanum || c = '-' || c = '_' || c = '.') = true := by
  rcases isNameChar_iff.1 h with h | rfl | rfl | rfl
  · simp [isAlphanum_eq, h]
  · decide
  · decide
  · decide

theorem isVolumeChar_of_isNameChar (h : isNameChar c = true) : isVolumeChar c = true := by
  rcases isNameChar_iff.1 h with h | rfl | rfl | rfl
  · simp [isVolumeChar, isAlphanum_eq, h]
  · decide
  · decide
  · decide

/-- Whatever is sanitised has no other characters. -/
theorem isNameChar_nameChar (c : Char) : isNameChar (nameChar c) = true := by
  unfold nameChar
  split
  · next hkept =>
    cases hupper : c.isUpper with
    | true => exact isNameChar_of_isWordChar (by simp [isWordChar, isLower_toLower hupper])
    | false =>
      rw [toLower_of_not_isUpper hupper, isNameChar_iff]
      simpa [isAlphanum_eq, hupper, or_assoc] using hkept
  · decide

/-- What may stand in a name stays as it is. -/
theorem nameChar_of_isNameChar (h : isNameChar c = true) : nameChar c = c := by
  have hupper : c.isUpper = false := by
    rcases isNameChar_iff.1 h with h | rfl | rfl | rfl
    · exact isUpper_of_isWordChar h
    · decide
    · decide
    · decide
  rw [nameChar, if_pos (kept_of_isNameChar h), toLower_of_not_isUpper hupper]

theorem IsSeparator.isNameChar (hs : IsSeparator s) : ∀ c ∈ s, isNameChar c = true := by
  cases hs with
  | period | underscore | underscores => exact List.all_eq_true.1 rfl
  | dashes more =>
    intro c hc
    rw [List.eq_of_mem_replicate hc]
    rfl

theorem IsReference.isNameChar (hr : IsReference r) : ∀ c ∈ r, isNameChar c = true := by
  induction hr with
  | word hw => exact fun c hc => isNameChar_of_isWordChar (hw.all c hc)
  | joined _ hs hw ih =>
    refine List.forall_mem_append.2 ⟨List.forall_mem_append.2 ⟨ih, hs.isNameChar⟩, ?_⟩
    exact fun c hc => isNameChar_of_isWordChar (hw.all c hc)

theorem IsReference.begins (hr : IsReference r) :
    ∃ c, r.head? = some c ∧ isWordChar c = true := by
  induction hr with
  | word hw =>
    obtain ⟨c, w, rfl⟩ := List.exists_cons_of_ne_nil hw.ne_nil
    exact ⟨c, rfl, hw.all c (List.mem_cons_self ..)⟩
  | joined _ _ _ ih =>
    obtain ⟨c, hhead, hc⟩ := ih
    exact ⟨c, by rw [List.append_assoc, List.head?_append, hhead]; rfl, hc⟩

/-! ## What names are put together from -/

variable {name later : String}

theorem isNameChar_dash : ∀ c ∈ "-".toList, isNameChar c = true :=
  List.all_eq_true.1 (by decide)

theorem isNameChar_sanitised (text : String) :
    ∀ c ∈ (sanitised text).toList, isNameChar c = true := by
  intro c hc
  rw [sanitised, String.toList_ofList] at hc
  obtain ⟨other, -, rfl⟩ := List.mem_map.1 hc
  exact isNameChar_nameChar other

/-- What has no other characters is not changed. -/
theorem sanitised_of_isNameChar (h : ∀ c ∈ name.toList, isNameChar c = true) :
    sanitised name = name := by
  have hsame : name.toList.map nameChar = name.toList.map id :=
    List.map_congr_left fun c hc => nameChar_of_isNameChar (h c hc)
  rw [sanitised, hsame, List.map_id, String.ofList_toList]

theorem sanitised_of_isReferenceName (h : isReferenceName name = true) : sanitised name = name :=
  sanitised_of_isNameChar (isReferenceName_iff.1 h).isNameChar

theorem isEngineName_of_isReferenceName (h : isReferenceName name = true) : IsEngineName name :=
  ⟨(isReferenceName_iff.1 h).begins, (isReferenceName_iff.1 h).isNameChar⟩

/-- What begins a name may be followed by anything that may stand in it. -/
theorem IsEngineName.append (h : IsEngineName name)
    (hlater : ∀ c ∈ later.toList, isNameChar c = true) : IsEngineName (name ++ later) where
  begins := by
    obtain ⟨c, hhead, hc⟩ := h.begins
    exact ⟨c, by rw [String.toList_append, List.head?_append, hhead]; rfl, hc⟩
  all := by
    rw [String.toList_append]
    exact List.forall_mem_append.2 ⟨h.all, hlater⟩

theorem isReferenceName_imageTag (h : isReferenceName name = true)
    (hlater : isReferenceName later = true) : isReferenceName (imageTag name later) = true := by
  rw [isReferenceName_iff] at h hlater ⊢
  have htag := h.append (.dashes 0) hlater
  simpa [imageTag] using htag

theorem isPlainName_of_isVolumeName (h : isVolumeName name = true) : IsPlainName name := by
  unfold isVolumeName at h
  split at h
  · cases h
  · next c rest hname =>
    obtain ⟨hc, hrest⟩ := Bool.and_eq_true_iff.1 h
    have hslash : '/' ∉ name.toList := by
      rw [hname]
      intro hmem
      rcases List.mem_cons.1 hmem with rfl | hmem
      · exact absurd hc (by decide)
      · exact absurd (List.all_eq_true.1 hrest _ hmem) (by decide)
    refine .of_head? hslash (by rw [hname]; rfl) ?_
    rintro rfl
    exact absurd hc (by decide)

/-- What begins with a letter or a digit, and goes on with what may stand in the name of a
volume. -/
theorem isVolumeName_of_all {c : Char} (hhead : name.toList.head? = some c)
    (hc : c.isAlphanum = true) (hall : ∀ c ∈ name.toList, isVolumeChar c = true) :
    isVolumeName name = true := by
  obtain ⟨rest, hname⟩ := List.head?_eq_some_iff.1 hhead
  rw [hname] at hall
  rw [isVolumeName, hname]
  exact Bool.and_eq_true_iff.2
    ⟨hc, List.all_eq_true.2 fun d hd => hall d (List.mem_cons_of_mem _ hd)⟩

theorem isVolumeChar_of_isVolumeName (h : isVolumeName name = true) :
    ∀ c ∈ name.toList, isVolumeChar c = true := by
  unfold isVolumeName at h
  split at h
  · cases h
  · next c rest hname =>
    obtain ⟨hc, hrest⟩ := Bool.and_eq_true_iff.1 h
    rw [hname]
    exact List.forall_mem_cons.2 ⟨by simp [isVolumeChar, hc], List.all_eq_true.1 hrest⟩

namespace Project

variable {project : Project} {container cache : String} {settings : ContainerSettings}

/-- Whether a container of the project mounts this cache. -/
def MountsCache (project : Project) (cache : String) : Prop :=
  ∃ container settings target, project.container? container = some settings ∧
    VolumeSettings.cache cache target ∈ settings.volumes

/-! ## What has been checked -/

theorem isReferenceName_name (project : Project) : isReferenceName project.name = true := by
  have hvalid := project.valid
  simp only [ProjectSettings.problems, List.append_eq_nil_iff] at hvalid
  have hname := hvalid.1.1
  unfold ProjectSettings.nameProblems at hname
  split at hname
  · nomatch hname
  · split at hname
    · next h => exact h
    · nomatch hname

theorem problems_of_container? (h : project.container? container = some settings) :
    settings.problems container = [] := by
  have hvalid := project.valid
  simp only [ProjectSettings.problems, List.append_eq_nil_iff] at hvalid
  exact List.flatMap_eq_nil_iff.1 hvalid.2 (container, settings) (SortedMap.mem_entries_iff.2 h)

theorem isReferenceName_of_container? (h : project.container? container = some settings) :
    isReferenceName container = true := by
  have hproblems := problems_of_container? h
  simp only [ContainerSettings.problems, List.append_eq_nil_iff] at hproblems
  have hname := hproblems.1.1.1.1
  split at hname
  · next h => exact h
  · nomatch hname

theorem MountsCache.isVolumeName (h : project.MountsCache cache) : isVolumeName cache = true := by
  obtain ⟨container, settings, target, hcontainer, hmem⟩ := h
  have hproblems := problems_of_container? hcontainer
  simp only [ContainerSettings.problems, List.append_eq_nil_iff] at hproblems
  have hcache := List.flatMap_eq_nil_iff.1 hproblems.2 _ hmem
  simp only [VolumeSettings.problems, List.append_eq_nil_iff] at hcache
  have hname := hcache.1
  split at hname
  · nomatch hname
  · split at hname
    · next h => exact h
    · nomatch hname

/-! ## What is named after a project -/

/-- The directory that holds the caches that are directories. -/
def cachesDirectory (project : Project) : Path :=
  (project.baseDirectory.join ⟨".dockhand"⟩).join ⟨"caches"⟩

/-- Whether everything that is named after the project has a name that is accepted. -/
structure LegalNames (project : Project) : Prop where
  tag : ∀ container, (project.container? container).isSome →
    isReferenceName (imageTag project.name container) = true
  volume : ∀ cache volume, project.MountsCache cache →
    project.cacheStores.store cache = .volume volume → isVolumeName volume = true
  network : ∀ task suffix, IsEngineName (RunNames.ofRun project.name task suffix).network
  container : ∀ task suffix container, (project.container? container).isSome →
    IsEngineName ((RunNames.ofRun project.name task suffix).container container)
  cacheInit : ∀ task suffix, IsEngineName (RunNames.ofRun project.name task suffix).cacheInit
  /-- A directory for a cache lies right in the directory for caches, under the cache's name. -/
  directory : ∀ cache path, project.MountsCache cache →
    project.cacheStores.store cache = .directory path →
      path.parent? = some project.cachesDirectory ∧ path.fileName? = some cache ∧
        path.key = project.cachesDirectory.key ++ [.name cache]
  /-- No two caches have one directory, in whatever spelling. -/
  apart : ∀ cache cache' path path', project.MountsCache cache → project.MountsCache cache' →
    project.cacheStores.store cache = .directory path →
    project.cacheStores.store cache' = .directory path' → path.same path' = true → cache = cache'

theorem isVolumeName_store (h : project.MountsCache cache) {volume : String}
    (hstore : project.cacheStores.store cache = .volume volume) : isVolumeName volume = true := by
  have hvolume : volume = "dockhand-cache-" ++ project.name ++ "-" ++ cache := by
    unfold CacheStores.store at hstore
    split at hstore
    · exact (CacheStore.volume.inj hstore).symm
    · nomatch hstore
  have hname := (isReferenceName_iff.1 project.isReferenceName_name).isNameChar
  refine isVolumeName_of_all (c := 'd') (by simp [hvolume]) (by decide) ?_
  simp only [hvolume, String.toList_append, List.forall_mem_append]
  exact ⟨⟨⟨List.all_eq_true.1 (by decide), fun c hc => isVolumeChar_of_isNameChar (hname c hc)⟩,
    List.all_eq_true.1 (by decide)⟩, isVolumeChar_of_isVolumeName h.isVolumeName⟩

/-- The names of a run go on, after the name of the project, with what has been sanitised. -/
theorem isEngineName_append (project : Project) {later : String}
    (hlater : ∀ c ∈ later.toList, isNameChar c = true) :
    IsEngineName (sanitised project.name ++ later) := by
  rw [sanitised_of_isReferenceName project.isReferenceName_name]
  exact (isEngineName_of_isReferenceName project.isReferenceName_name).append hlater

theorem isEngineName_dashed (project : Project) (part suffix : String) :
    IsEngineName (sanitised project.name ++ "-" ++ sanitised part ++ "-" ++ sanitised suffix) := by
  rw [String.append_assoc, String.append_assoc, String.append_assoc]
  refine project.isEngineName_append ?_
  simp only [String.toList_append, List.forall_mem_append]
  exact ⟨isNameChar_dash, isNameChar_sanitised part, isNameChar_dash, isNameChar_sanitised suffix⟩

theorem isEngineName_cacheInit (project : Project) (task suffix : String) :
    IsEngineName (RunNames.ofRun project.name task suffix).cacheInit := by
  rw [RunNames.ofRun, RunNames.cacheInit, String.append_assoc]
  refine project.isEngineName_append ?_
  simp only [String.toList_append, List.forall_mem_append]
  exact ⟨List.all_eq_true.1 (by decide), isNameChar_sanitised suffix⟩

theorem directory_eq {path : Path} (hstore : project.cacheStores.store cache = .directory path) :
    path = project.cachesDirectory.join ⟨cache⟩ := by
  unfold CacheStores.store at hstore
  split at hstore
  · nomatch hstore
  · exact (CacheStore.directory.inj hstore).symm

theorem isPlainName_caches : IsPlainName "caches" := ⟨by decide, by decide, by decide, by decide⟩

/-- The directory for a cache is right where the caches are. -/
theorem holds_directory (h : project.MountsCache cache) {path : Path}
    (hstore : project.cacheStores.store cache = .directory path) :
    path.parent? = some project.cachesDirectory ∧ path.fileName? = some cache ∧
      path.key = project.cachesDirectory.key ++ [.name cache] := by
  have hplain := isPlainName_of_isVolumeName h.isVolumeName
  have hcaches := Path.cuts_join isPlainName_caches (project.baseDirectory.join ⟨".dockhand"⟩)
  rw [directory_eq hstore]
  refine ⟨(Path.parent?_join hplain hcaches).trans ?_, Path.fileName?_join hplain _,
    Path.key_join hplain _⟩
  rw [String.ofList_toList]
  rfl

/-- **Everything that is named after a project has a name that is accepted**, whatever its tasks
and the suffix of a run are, and wherever it lies. -/
theorem legalNames (project : Project) : project.LegalNames where
  tag container hcontainer := by
    obtain ⟨settings, hsettings⟩ := Option.isSome_iff_exists.1 hcontainer
    exact isReferenceName_imageTag project.isReferenceName_name
      (isReferenceName_of_container? hsettings)
  volume _ _ hmounts := isVolumeName_store hmounts
  network task suffix := project.isEngineName_dashed task suffix
  container _ suffix container _ := project.isEngineName_dashed container suffix
  cacheInit := project.isEngineName_cacheInit
  directory _ _ hmounts := holds_directory hmounts
  apart cache cache' path path' h h' hstore hstore' hsame := by
    obtain ⟨-, -, hkey⟩ := holds_directory h hstore
    obtain ⟨-, -, hkey'⟩ := holds_directory h' hstore'
    have hkeys : path.key = path'.key := of_decide_eq_true hsame
    rw [hkey, hkey'] at hkeys
    simpa using hkeys

/-- Letters that are no names elsewhere are not taken over. -/
example : (RunNames.ofRun "shop" "Ärger/1" "A_b").network = "shop--rger-1-a_b" := by decide +kernel

end Project

end Stevedore
