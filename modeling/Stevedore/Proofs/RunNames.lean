import Mathlib.Data.List.Nodup
import Stevedore.Proofs.LegalNames

/-!
The names that runs give to what they make are different.

A run names its network, its containers and its temporary paths after its project, and all these
names end with its suffix, the paths with a purpose behind it. Project, task and container may have
dashes in them, so nothing can be told from where the dashes are. But the suffixes of two runs are
of one length, so they can be cut off from behind (`eq_of_append_eq_append`), and the purposes can
be told from their last letters. Two runs are thus kept apart whatever they run
(`RunNames.KeptApart`).

Within one run, names begin and end alike, so that what is between tells containers apart, as
sanitising does not change their names. There is one name that the run gives to a container of its
own, so no container of the task may be called like this one (`nodup_containerNames_iff`).
-/

namespace Stevedore

variable {s t front back name other : String}

/-! ## Ends of names -/

/-- Two texts are told apart by what they end with. -/
theorem eq_of_append_eq_append (hlength : s.length = t.length) (h : front ++ s = back ++ t) :
    front = back ∧ s = t := by
  rw [← String.toList_inj, String.toList_append, String.toList_append] at h
  have hparts := List.append_inj' h (by rw [String.length_toList, String.length_toList, hlength])
  exact ⟨String.toList_inj.1 hparts.1, String.toList_inj.1 hparts.2⟩

/-- What is kept on the host for a container that runs as the current user. -/
def purposes : List String := ["passwd", "group", "home"]

theorem slash_not_mem_of_mem_purposes {purpose : String} (h : purpose ∈ purposes) :
    '/' ∉ purpose.toList := by
  have hall : ∀ purpose ∈ purposes, '/' ∉ purpose.toList := by decide
  exact hall purpose h

/-- The purposes have different last letters. -/
theorem eq_of_append_purpose_eq {purpose purpose' : String} (h : purpose ∈ purposes)
    (h' : purpose' ∈ purposes) (heq : front ++ purpose = back ++ purpose') :
    front = back ∧ purpose = purpose' := by
  have hne : ∀ purpose ∈ purposes, purpose.toList ≠ [] := by decide
  have hlast : ∀ purpose ∈ purposes, ∀ purpose' ∈ purposes,
      purpose.toList.getLast? = purpose'.toList.getLast? → purpose = purpose' := by
    decide
  have hends := congrArg (fun s => s.toList.getLast?) heq
  simp only [String.toList_append] at hends
  rw [List.getLast?_append_of_ne_nil _ (hne _ h),
    List.getLast?_append_of_ne_nil _ (hne _ h')] at hends
  obtain rfl := hlast _ h _ h' hends
  exact ⟨(String.append_left_inj _).1 heq, rfl⟩

namespace RunNames

variable {n : RunNames} {project task suffix container purpose purpose' : String} {base : Path}

/-! ## Paths -/

/-- What a temporary path is called in its directory. -/
def label (n : RunNames) (container purpose : String) : String :=
  "dockhand-" ++ n.project ++ "-" ++ sanitised container ++ "-" ++ n.suffix ++ "-" ++ purpose

theorem slash_not_mem_sanitised (s : String) : '/' ∉ (sanitised s).toList := by
  intro hslash
  exact absurd (isNameChar_sanitised s '/' hslash) (by decide)

/-- A temporary path is right in the directory for such paths. -/
theorem key_temporary (project task suffix container : String) (base : Path)
    (h : '/' ∉ purpose.toList) :
    ((ofRun project task suffix).temporary base container purpose).key =
      base.key ++ [.name ((ofRun project task suffix).label container purpose)] := by
  refine Path.key_join (.of_head? (c := 'd') ?_ ?_ (by decide)) base
  · simp [ofRun, slash_not_mem_sanitised, h]
  · simp

/-- Two runs' temporary paths in one directory are told apart by what they are called. -/
theorem label_eq_of_same {project' task' suffix' container' : String} (h : purpose ∈ purposes)
    (h' : purpose' ∈ purposes)
    (hsame : ((ofRun project task suffix).temporary base container purpose).same
      ((ofRun project' task' suffix').temporary base container' purpose') = true) :
    (ofRun project task suffix).label container purpose =
      (ofRun project' task' suffix').label container' purpose' := by
  have hkeys := of_decide_eq_true hsame
  rw [key_temporary _ _ _ _ _ (slash_not_mem_of_mem_purposes h),
    key_temporary _ _ _ _ _ (slash_not_mem_of_mem_purposes h')] at hkeys
  simpa using hkeys

/-! ## Within one run -/

/-- The name of a container tells which one it is. -/
theorem container_eq_iff (hname : isReferenceName name = true)
    (hother : isReferenceName other = true) :
    n.container name = n.container other ↔ name = other := by
  rw [RunNames.container, RunNames.container, sanitised_of_isReferenceName hname,
    sanitised_of_isReferenceName hother, String.append_left_inj, String.append_left_inj,
    String.append_right_inj]

/-- The name for the container that hands caches over is one that the task can give away. -/
theorem cacheInit_eq (n : RunNames) : n.cacheInit = n.container "cache-init" := by
  have hsanitised : sanitised "cache-init" = "cache-init" :=
    sanitised_of_isReferenceName (by decide)
  have hparts : "-cache-init-" = "-" ++ "cache-init" ++ "-" := by decide
  rw [cacheInit, RunNames.container, hsanitised, hparts]
  simp only [String.append_assoc]

/-- **The containers of a run have different names, unless one of them is called like the one that
hands the caches over.** -/
theorem nodup_containerNames_iff (project : Project) (task suffix : String) {names : NameSet}
    (hnames : ∀ name ∈ names, isReferenceName name = true) :
    (names.toList.map (ofRun project.name task suffix).container).Nodup ∧
      (((ofRun project.name task suffix).cacheInit ::
        names.toList.map (ofRun project.name task suffix).container).Nodup ↔
          "cache-init" ∉ names) := by
  have hnodup : (names.toList.map (ofRun project.name task suffix).container).Nodup := by
    refine names.nodup_toList.map_on fun name hname other hother heq => ?_
    exact (container_eq_iff (hnames name hname) (hnames other hother)).1 heq
  refine ⟨hnodup, ?_⟩
  rw [List.nodup_cons, and_iff_left hnodup, cacheInit_eq, List.mem_map, not_iff_not]
  constructor
  · rintro ⟨name, hname, heq⟩
    rw [← (container_eq_iff (hnames name hname) (by decide)).1 heq]
    exact hname
  · exact fun h => ⟨_, h, rfl⟩

end RunNames

/-! A depot where the loader works with crates that are kept in a cache. Somebody has set up a
container for these too, and called it what it does. -/

namespace Depot

open RunNames

/-- The depot. -/
def project : Project where
  settings := {
    projectName := "depot"
    containers := .ofList [
      ("loader", {
        image := some "loader"
        dependencies := ["cache-init"]
        runAsCurrentUser := { enabled := true, homeDirectory := some "/home" }
        volumes := [.cache "crates" "/crates"] }),
      ("cache-init", { image := some "sweeper" })]
    tasks := .ofList [("load", { run := some { container := "loader" } })] }
  valid := by decide

/-- The loader and a crane would have names of their own. -/
theorem loader_and_crane_apart :
    (∀ name ∈ (.ofList ["loader", "crane"] : NameSet), isReferenceName name = true) ∧
      ((ofRun project.name "load" "1").cacheInit ::
        (.ofList ["loader", "crane"] : NameSet).toList.map
          (ofRun project.name "load" "1").container).Nodup := by
  have hnames : ∀ name ∈ (.ofList ["loader", "crane"] : NameSet), isReferenceName name = true := by
    decide
  exact ⟨hnames, (nodup_containerNames_iff project "load" "1" hnames).2.2 (by decide)⟩

/-- The name for the other container is already that of the one that hands the crates over. -/
theorem cacheInit_is_taken :
    (project.container? "loader").isSome ∧ (project.container? "cache-init").isSome ∧
      ¬ ((ofRun project.name "load" "1").cacheInit ::
        (.ofList ["loader", "cache-init"] : NameSet).toList.map
          (ofRun project.name "load" "1").container).Nodup := by
  decide

end Depot

namespace RunNames

variable {n : RunNames} {project project' task task' suffix suffix' purpose purpose' : String}

/-! ## Paths of one run -/

/-- Whether temporary paths in one directory tell for which container they are, and what for. -/
def TellsPurposes (n : RunNames) : Prop :=
  ∀ base name other, isReferenceName name = true → isReferenceName other = true →
    ∀ purpose ∈ purposes, ∀ purpose' ∈ purposes,
      (n.temporary base name purpose).same (n.temporary base other purpose') = true →
        name = other ∧ purpose = purpose'

theorem tellsPurposes (project task suffix : String) :
    (ofRun project task suffix).TellsPurposes := by
  intro base name other hname hother purpose h purpose' h' hsame
  obtain ⟨hfront, hpurpose⟩ := eq_of_append_purpose_eq h h' (label_eq_of_same h h' hsame)
  rw [String.append_left_inj, String.append_left_inj, String.append_left_inj,
    String.append_right_inj, sanitised_of_isReferenceName hname,
    sanitised_of_isReferenceName hother] at hfront
  exact ⟨hfront, hpurpose⟩

/-! ## Among runs -/

/-- The names that a run may give to containers. -/
inductive NamesContainer (n : RunNames) : String → Prop
  | container (name : String) : NamesContainer n (n.container name)
  | cacheInit : NamesContainer n n.cacheInit

theorem NamesContainer.exists_eq_append (h : n.NamesContainer name) :
    ∃ front, name = front ++ n.suffix := by
  cases h with
  | container name => exact ⟨_, rfl⟩
  | cacheInit => exact ⟨_, rfl⟩

/-- Whether two runs have no name in common for anything they make. -/
structure KeptApart (n m : RunNames) : Prop where
  network : n.network ≠ m.network
  container : ∀ name other, n.NamesContainer name → m.NamesContainer other → name ≠ other
  temporary : ∀ base name other, ∀ purpose ∈ purposes, ∀ purpose' ∈ purposes,
    (n.temporary base name purpose).same (m.temporary base other purpose') = false

/-- Whether two suffixes are different, of one length, and of lower case letters and digits. -/
structure TellApart (suffix suffix' : String) : Prop where
  length_eq : suffix.length = suffix'.length
  left : ∀ c ∈ suffix.toList, isWordChar c = true
  right : ∀ c ∈ suffix'.toList, isWordChar c = true
  ne : suffix ≠ suffix'

theorem TellApart.keptApart (h : TellApart suffix suffix') :
    KeptApart (ofRun project task suffix) (ofRun project' task' suffix') := by
  -- Nothing that ends with the one suffix ends with the other.
  have hsuffix := sanitised_of_isNameChar fun c hc => isNameChar_of_isWordChar (h.left c hc)
  have hsuffix' := sanitised_of_isNameChar fun c hc => isNameChar_of_isWordChar (h.right c hc)
  have hends : ∀ front back, front ++ (ofRun project task suffix).suffix ≠
      back ++ (ofRun project' task' suffix').suffix := by
    intro front back heq
    rw [ofRun, ofRun, hsuffix, hsuffix'] at heq
    exact h.ne (eq_of_append_eq_append h.length_eq heq).2
  refine ⟨hends _ _, ?_, ?_⟩
  · intro name other hname hother
    obtain ⟨front, rfl⟩ := hname.exists_eq_append
    obtain ⟨back, rfl⟩ := hother.exists_eq_append
    exact hends front back
  · intro base name other purpose hpurpose purpose' hpurpose'
    rw [Bool.eq_false_iff]
    intro hsame
    have hlabel := label_eq_of_same hpurpose hpurpose' hsame
    obtain ⟨hfront, -⟩ := eq_of_append_purpose_eq hpurpose hpurpose' hlabel
    rw [String.append_left_inj] at hfront
    exact hends _ _ hfront

/-- **Runs do not get in each other's way, whatever they run, and none in its own**: no name of one
is a name of another that has a different suffix, and within one each temporary path has its
container and purpose. -/
theorem keptApart_and_tellsPurposes (project task suffix project' task' suffix' : String) :
    (TellApart suffix suffix' →
      KeptApart (ofRun project task suffix) (ofRun project' task' suffix')) ∧
    (ofRun project task suffix).TellsPurposes :=
  ⟨TellApart.keptApart, tellsPurposes project task suffix⟩

end RunNames

/-- Loading at night in the depot, and a night in a depot for loads, go on side by side. -/
theorem Depot.nights_kept_apart :
    RunNames.TellApart "3f2a" "9c01" ∧
      (RunNames.ofRun "depot" "load-night" "3f2a").KeptApart
        (RunNames.ofRun "depot-load" "night" "9c01") := by
  have hsuffixes : RunNames.TellApart "3f2a" "9c01" :=
    ⟨by decide, List.all_eq_true.1 (by decide), List.all_eq_true.1 (by decide), by decide⟩
  exact ⟨hsuffixes, (RunNames.keptApart_and_tellsPurposes "depot" "load-night" "3f2a" "depot-load"
    "night" "9c01").1 hsuffixes⟩

end Stevedore
