import Stevedore.Proofs.HostPaths

/-!
What a container that runs as the current user is told about the users of its system.

The file of users has one line for each, with colons between the fields, and nothing stands for a
colon or the end of a line inside a field. So the file is read as it was written if every text in it
is a field (`entriesOf_ofEntries`). A project file is not checked for this: a home directory only
has to begin with a slash. The container finds its user at home exactly if the home directory has
neither a colon nor the end of a line in it (`Project.isListed_iff`).

The numbers of the user and group are fields anyway, and so is whatever is read from a file, so a
home that is no field is in no entry of any file.
-/

namespace Stevedore

/-! ## Files of entries -/

/-- Whether the text may be a field of an entry. -/
def IsField (s : String) : Prop := ':' ∉ s.toList ∧ '\n' ∉ s.toList

instance (s : String) : Decidable (IsField s) := inferInstanceAs (Decidable (_ ∧ _))

/-- The lines of a file. The end of the last one may be missing. -/
def linesOf (file : String) : List String :=
  let lines := Text.splitText '\n' file
  if lines.getLast? = some "" then lines.dropLast else lines

/-- The entries of a file: each line with its fields. -/
def entriesOf (file : String) : List (List String) := (linesOf file).map (Text.splitText ':')

/-- The file with these lines. -/
def ofLines (lines : List String) : String := String.join (lines.map (· ++ String.singleton '\n'))

/-- The file with these entries. -/
def ofEntries (entries : List (List String)) : String :=
  ofLines (entries.map (String.singleton ':').intercalate)

section

variable {lines : List String} {entries : List (List String)} {file field : String}

theorem linesOf_ofLines (h : ∀ line ∈ lines, '\n' ∉ line.toList) :
    linesOf (ofLines lines) = lines := by
  have hsplit : Text.splitText '\n' (ofLines lines) = lines ++ [""] := by
    induction lines with
    | nil => rfl
    | cons line lines ih =>
      obtain ⟨hline, hlines⟩ := List.forall_mem_cons.1 h
      have hcons : ofLines (line :: lines) = line ++ String.singleton '\n' ++ ofLines lines :=
        String.join_cons
      rw [hcons, Text.splitText_append, Text.splitText_of_not_mem hline, ih hlines,
        List.singleton_append, List.cons_append]
  rw [linesOf, hsplit, if_pos List.getLast?_concat, List.dropLast_concat]

/-- **Entries are read as they were written**, if they are made of fields. -/
theorem entriesOf_ofEntries (h : ∀ entry ∈ entries, entry ≠ [] ∧ ∀ field ∈ entry, IsField field) :
    entriesOf (ofEntries entries) = entries := by
  have hlines : ∀ line ∈ entries.map (String.singleton ':').intercalate, '\n' ∉ line.toList := by
    intro line hline
    obtain ⟨entry, hentry, rfl⟩ := List.mem_map.1 hline
    exact Text.not_mem_intercalate (by decide) fun field hfield =>
      ((h entry hentry).2 field hfield).2
  rw [entriesOf, ofEntries, linesOf_ofLines hlines, List.map_map]
  refine (List.map_congr_left fun entry hentry => ?_).trans (List.map_id _)
  obtain ⟨hne, hfields⟩ := h entry hentry
  calc Text.splitText ':' ((String.singleton ':').intercalate entry)
      = entry.flatMap (Text.splitText ':') := Text.splitText_intercalate hne
    _ = entry := Text.flatMap_splitText fun field hfield => (hfields field hfield).1

/-- What is read is a field. -/
theorem isField_of_mem_entriesOf {entry : List String} (hentry : entry ∈ entriesOf file)
    (hfield : field ∈ entry) : IsField field := by
  obtain ⟨line, hline, rfl⟩ := List.mem_map.1 hentry
  refine ⟨Text.not_mem_of_mem_splitText hfield, fun hend => ?_⟩
  have hsplit : line ∈ Text.splitText '\n' file := by
    unfold linesOf at hline
    dsimp only at hline
    split at hline
    · exact (List.dropLast_sublist _).subset hline
    · exact hline
  exact Text.not_mem_of_mem_splitText hsplit (Text.mem_of_mem_splitText hfield hend)

end

/-! ## The file of users -/

theorem isField_toString (n : Nat) : IsField (toString n) := by
  have hdigits : ∀ c ∈ (toString n).toList, c.isDigit = true := by
    intro c hc
    rw [Nat.toString_eq_ofList_toDigits, String.toList_ofList] at hc
    exact Nat.isDigit_of_mem_toDigits (by decide) (by decide) hc
  constructor
  · intro hc
    cases hdigits _ hc
  · intro hc
    cases hdigits _ hc

theorem toString_nat_inj {m n : Nat} (h : toString m = toString n) : m = n := by
  rw [Nat.toString_eq_ofList_toDigits, Nat.toString_eq_ofList_toDigits, String.ofList_inj] at h
  calc m
      = Nat.ofDigitChars 10 (Nat.toDigits 10 m) 0 := Nat.ofDigitChars_ten_toDigits.symm
    _ = Nat.ofDigitChars 10 (Nat.toDigits 10 n) 0 := by rw [h]
    _ = n := Nat.ofDigitChars_ten_toDigits

namespace User

variable {u : User} {home : String}

/-- The entry of a user who lives at `home`. -/
def entry (u : User) (home : String) : List String :=
  [u.userName, "x", toString u.uid, toString u.gid, u.userName, home, "/bin/sh"]

/-- The user whom every system has. -/
def root : User := ⟨0, 0, "root", "root"⟩

/-- The entries of the file of users. -/
def entries (u : User) (home : String) : List (List String) :=
  if u.uid = 0 then [root.entry home] else [root.entry "/root", u.entry home]

theorem passwdFile_eq (u : User) (home : String) :
    u.passwdFile home = ofEntries (u.entries home) := by
  unfold passwdFile entries
  split
  · show "root:x:0:0:root:" ++ home ++ ":/bin/sh\n" = _
    rw [← String.toList_inj]
    simp [ofEntries, ofLines, entry, root, String.intercalate_cons_of_ne_nil]
  · show "root:x:0:0:root:/root:/bin/sh\n" ++ (u.userName ++ ":x:" ++ toString u.uid ++ ":" ++
      toString u.gid ++ ":" ++ u.userName ++ ":" ++ home ++ ":/bin/sh\n") = _
    rw [← String.toList_inj]
    simp [ofEntries, ofLines, entry, root, String.intercalate_cons_of_ne_nil]

theorem isField_of_mem_entry (hname : IsField u.userName) (hhome : IsField home) :
    ∀ field ∈ u.entry home, IsField field := by
  have hfixed : IsField "x" ∧ IsField "/bin/sh" := by decide
  simpa [entry, hname, hhome, hfixed] using
    And.intro (isField_toString u.uid) (isField_toString u.gid)

/-- The entries are made of fields if their parts are. -/
theorem isField_of_mem_entries (hname : IsField u.userName) (hhome : IsField home) :
    ∀ entry ∈ u.entries home, entry ≠ [] ∧ ∀ field ∈ entry, IsField field := by
  have hroot : ∀ {home}, IsField home → ∀ field ∈ root.entry home, IsField field :=
    isField_of_mem_entry (by decide)
  unfold entries
  split
  · exact List.forall_mem_singleton.2 ⟨nofun, hroot hhome⟩
  · exact List.forall_mem_cons.2 ⟨⟨nofun, hroot (by decide)⟩,
      List.forall_mem_singleton.2 ⟨nofun, isField_of_mem_entry hname hhome⟩⟩

theorem length_of_mem_entries (u : User) (home : String) :
    ∀ entry ∈ u.entries home, entry.length = 7 := by
  unfold entries
  split <;> simp [entry]

/-- No other user has the number of this one. -/
theorem exists_filter_entries (u : User) (home : String) : ∃ entry,
    (u.entries home).filter (fun entry => entry[2]? = some (toString u.uid)) = [entry] ∧
      entry[5]? = some home := by
  unfold entries
  split
  · next h => exact ⟨root.entry home, by rw [h]; rfl, rfl⟩
  · next h =>
    have hother : (root.entry "/root")[2]? ≠ some (toString u.uid) :=
      fun heq => h (toString_nat_inj (Option.some.inj heq)).symm
    refine ⟨u.entry home, ?_, rfl⟩
    rw [List.filter_cons_of_neg (by simpa using hother), List.filter_cons_of_pos, List.filter_nil]
    exact decide_eq_true rfl

/-- Whether the file lists the user, with this home, among entries of seven fields. -/
structure IsListedIn (u : User) (home file : String) : Prop where
  fields : ∀ entry ∈ entriesOf file, entry.length = 7
  /-- The third field of an entry is the user's number, and the sixth their home. -/
  once : ∃ entry,
    (entriesOf file).filter (fun entry => entry[2]? = some (toString u.uid)) = [entry] ∧
    entry[5]? = some home

theorem isListedIn_passwdFile_iff (hname : IsField u.userName) :
    u.IsListedIn home (u.passwdFile home) ↔ IsField home := by
  constructor
  · intro h
    obtain ⟨entry, hentry, hhome⟩ := h.once
    have hmem : entry ∈ [entry] := List.mem_singleton_self entry
    rw [← hentry] at hmem
    exact isField_of_mem_entriesOf (List.mem_of_mem_filter hmem) (List.mem_of_getElem? hhome)
  · intro hhome
    have hentries : entriesOf (u.passwdFile home) = u.entries home := by
      rw [passwdFile_eq, entriesOf_ofEntries (isField_of_mem_entries hname hhome)]
    constructor
    · rw [hentries]
      exact length_of_mem_entries u home
    · rw [hentries]
      exact exists_filter_entries u home

/-- Entries of seven fields may still be others than were meant. -/
example : entriesOf (passwdFile ⟨1000, 1000, "joiner", "joiners"⟩
      "/:/bin/sh\nguest:x:0:0:guest:/") =
    [root.entry "/root", ["joiner", "x", "1000", "1000", "joiner", "/", "/bin/sh"],
      ["guest", "x", "0", "0", "guest", "/", "/bin/sh"]] := by decide +kernel

end User

/-! ## The file in a container -/

open Program

section

variable {project : Project} {container home : String} {settings : ContainerSettings}

/-- A container that runs as the current user has a home directory. -/
theorem Project.exists_home (hcontainer : project.container? container = some settings)
    (henabled : settings.runAsCurrentUser.enabled = true) :
    ∃ home, settings.runAsCurrentUser.homeDirectory = some home := by
  have hproblems := problems_of_container? hcontainer
  simp only [ContainerSettings.problems, List.append_eq_nil_iff, ContainerSettings.userProblems,
    if_pos henabled] at hproblems
  have huser := hproblems.1.2
  split at huser
  · cases huser
  · next home hhome => exact ⟨home, hhome⟩

/-- Whether every file of users that the container gets gives its user this home. However a task of
the project is run, the file has been written when the container is asked for. -/
def Project.MountsUsers (project : Project) (container home : String) : Prop :=
  ∀ {task : String} {host : Host} {m : Machine} {image : Image} {network : Network}
    {history : List Deed} {d : Deed} {request : CreateRequest},
    Graph.resolve project task = .ok m.graph →
    ((Worker.forTask project host m).perform (.createContainer container image network)).Through
      history () → d ∈ history → d.creation? = some request →
    ∃ path, ⟨.hostPath path, "/etc/passwd", some "ro"⟩ ∈ request.mounts ∧
      [.changed (.write path (host.user.passwdFile home)) (.ok ()), d].Sublist history

namespace Worker

variable {w : Worker} {history : List Deed} {k : Container} {image : Image} {network : Network}
  {request : CreateRequest}

theorem changed_of_writeTemporaryFile {c contents : String} {path : Path}
    (h : (writeTemporaryFile c path contents).run.Through history (.ok ())) :
    .changed (.write path contents) (.ok ()) ∈ history := by
  obtain ⟨_, first, second, rfl, hfirst, -⟩ := Attempt.through_bind_ok h
  obtain ⟨outcome, rest, rfl, hrest⟩ := through_change.1 hfirst
  cases outcome with
  | error => nomatch (through_done.1 hrest).2
  | ok => simp

theorem users_of_through (hhome : k.userHome = some home)
    (h : (w.creationRequest k image network).run.Through history (.ok request)) :
    ∃ path, ⟨.hostPath path, "/etc/passwd", some "ro"⟩ ∈ request.mounts ∧
      .changed (.write path (w.user.passwdFile home)) (.ok ()) ∈ history := by
  refine ⟨w.names.temporary w.temporaryDirectory k.name "passwd", ?_, ?_⟩
  · rw [mounts_of_through h, ownMounts, hhome]
    simp
  · unfold creationRequest at h
    dsimp only at h
    rw [hhome] at h
    obtain ⟨_, first, second, rfl, hfirst, -⟩ := Attempt.through_bind_ok h
    obtain ⟨_, first, second, rfl, hfirst, -⟩ := Attempt.through_bind_ok hfirst
    exact List.mem_append_left _ (List.mem_append_left _ (changed_of_writeTemporaryFile hfirst))

/-- A container is asked for once its request is complete. -/
theorem exists_request_of_createContainer {c : String} {d : Deed}
    (h : (w.createContainer c image network).Through history ()) (hd : d ∈ history)
    (hcreation : d.creation? = some request) : ∃ k first second,
      w.graph.container? c = some k ∧ history = first ++ second ∧ d ∈ second ∧
        (w.creationRequest k image network).run.Through first (.ok request) := by
  have hposted : ∀ e, d ∉ [.posted e] := by
    intro e hd
    obtain rfl := List.mem_singleton.1 hd
    cases hcreation
  unfold createContainer at h
  split at h
  · rw [through_tell.1 h] at hd
    exact absurd hd (hposted _)
  · next k hk =>
    obtain ⟨result, first, second, rfl, hfirst, hsecond⟩ := through_bind.1 h
    have hasks : (w.creationRequest k image network).run.Within _ fun _ => False :=
      within_creationRequest ..
    have hlater : d ∈ second := by
      refine (List.mem_append.1 hd).resolve_left fun hd => ?_
      obtain ⟨_, hfalse, -⟩ := (hfirst.within hasks d hd).exists_call hcreation
      exact hfalse
    cases result with
    | error message =>
      rw [through_tell.1 hsecond] at hlater
      exact absurd hlater (hposted _)
    | ok asked =>
      obtain ⟨reply, rest, rfl, hrest⟩ := through_ask_quietly.1 hsecond
      obtain ⟨e, rfl⟩ : ∃ e, rest = [.posted e] := by
        cases reply with
        | error => exact ⟨_, through_tell.1 hrest⟩
        | ok => exact ⟨_, through_tell.1 hrest⟩
      obtain rfl : asked = request := by
        rcases List.mem_cons.1 hlater with rfl | hlater
        · exact Option.some.inj hcreation
        rcases List.mem_cons.1 hlater with rfl | hlater
        · exact Option.some.inj hcreation
        · exact absurd hlater (hposted e)
      exact ⟨k, first, _, hk, rfl, hlater, hfirst⟩

end Worker

/-- **A container that runs as the current user gets a file of users**, in which that user lives
where the settings say. -/
theorem Project.mountsUsers (hcontainer : project.container? container = some settings)
    (henabled : settings.runAsCurrentUser.enabled = true)
    (hhome : settings.runAsCurrentUser.homeDirectory = some home) :
    project.MountsUsers container home := by
  intro task host m image network history d request hresolve hthrough hd hrequest
  obtain ⟨k, first, second, hk, rfl, hlater, hfirst⟩ :=
    Worker.exists_request_of_createContainer hthrough hd hrequest
  obtain ⟨_, hsettings, rfl⟩ := Graph.container?_of_resolve hresolve hk
  obtain rfl := Option.some.inj (hcontainer.symm.trans hsettings)
  have hlives : (Container.ofSettings project.baseDirectory container settings).userHome =
      some home := (if_pos henabled).trans hhome
  obtain ⟨path, hmount, hwritten⟩ := Worker.users_of_through hlives hfirst
  exact ⟨path, hmount,
    (List.singleton_sublist.2 hwritten).append (List.singleton_sublist.2 hlater)⟩

/-- **Whether a container finds its user where it should.** -/
theorem Project.isListed_iff (hcontainer : project.container? container = some settings)
    (henabled : settings.runAsCurrentUser.enabled = true) :
    ∃ home, settings.runAsCurrentUser.homeDirectory = some home ∧
      project.MountsUsers container home ∧
      ∀ user : User, IsField user.userName →
        (user.IsListedIn home (user.passwdFile home) ↔ IsField home) := by
  obtain ⟨home, hhome⟩ := exists_home hcontainer henabled
  exact ⟨home, hhome, mountsUsers hcontainer henabled hhome, fun user =>
    User.isListedIn_passwdFile_iff⟩

end

/-! ## A pottery -/

namespace Pottery

/-- A wheel whose potter lives there. -/
def wheel (home : String) : ContainerSettings where
  image := some "clay"
  runAsCurrentUser := ⟨true, some home⟩

/-- What the project file says. -/
def settings (home : String) : ProjectSettings where
  projectName := "pottery"
  containers := .ofList [("wheel", wheel home)]
  tasks := .ofList [("throw", { run := some { container := "wheel" } })]

/-- The potter lives with the clay. -/
def shed : Project where
  settings := settings "/clay"
  baseDirectory := ⟨"/pottery"⟩
  valid := by decide

/-- The potter lives at the kiln, which has a colon in its name. -/
def kiln : Project where
  settings := settings "/kiln:/clay"
  baseDirectory := ⟨"/pottery"⟩
  valid := by decide

/-- The work. -/
def machine (project : Project) : Machine where
  graph := {
    projectName := "pottery"
    taskName := "throw"
    run := { container := "wheel" }
    nodes := Graph.nodesOf project (.ofList [("wheel", ∅)]) }
  options := { task := "throw" }

/-- The wheel is set up. -/
def setUp : Step := .createContainer "wheel" ⟨"clay"⟩ ⟨"network"⟩

/-- The potter. -/
def potter : User := Workshop.host.user

/-- Somebody asks for the wheel. -/
theorem exists_creation {project : Project}
    (h : (Worker.forTask project Workshop.host (machine project)).madeFor setUp ≠ []) :
    ∃ history d request,
      ((Worker.forTask project Workshop.host (machine project)).perform setUp).Through history () ∧
        d ∈ history ∧ d.creation? = some request := by
  obtain ⟨request, hrequest⟩ := List.exists_mem_of_ne_nil _ h
  obtain ⟨history, d, hthrough, hd, hcreation⟩ := Worker.exists_history_of_madeFor hrequest
  exact ⟨history, d, request, hthrough, hd, hcreation⟩

/-- In the shed the potter is found at home. -/
theorem potter_is_found : ∃ history d request path,
    ((Worker.forTask shed Workshop.host (machine shed)).perform setUp).Through history () ∧
      d ∈ history ∧ d.creation? = some request ∧
      ⟨.hostPath path, "/etc/passwd", some "ro"⟩ ∈ request.mounts ∧
      [.changed (.write path (potter.passwdFile "/clay")) (.ok ()), d].Sublist history ∧
      potter.IsListedIn "/clay" (potter.passwdFile "/clay") := by
  have hresolve : Graph.resolve shed "throw" = .ok (machine shed).graph := by decide +kernel
  have hmade : (Worker.forTask shed Workshop.host (machine shed)).madeFor setUp ≠ [] := by
    decide +kernel
  have hcontainer : shed.container? "wheel" = some (wheel "/clay") := by decide
  obtain ⟨history, d, request, hthrough, hd, hcreation⟩ := exists_creation hmade
  obtain ⟨home, hhome, hmounts, hlisted⟩ := Project.isListed_iff hcontainer rfl
  obtain rfl : "/clay" = home := Option.some.inj hhome
  obtain ⟨path, hmount, hwritten⟩ := hmounts hresolve hthrough hd hcreation
  exact ⟨history, d, request, path, hthrough, hd, hcreation, hmount, hwritten,
    (hlisted potter (by decide)).2 (by decide)⟩

/-- At the kiln there is an entry too long, which says that the potter lives elsewhere. -/
theorem potter_is_lost : ∃ history d request path,
    kiln.container? "wheel" = some (wheel "/kiln:/clay") ∧
      Graph.resolve kiln "throw" = .ok (machine kiln).graph ∧
      ((Worker.forTask kiln Workshop.host (machine kiln)).perform setUp).Through history () ∧
      d ∈ history ∧ d.creation? = some request ∧
      ⟨.hostPath path, "/etc/passwd", some "ro"⟩ ∈ request.mounts ∧
      [.changed (.write path (potter.passwdFile "/kiln:/clay")) (.ok ()), d].Sublist history ∧
      IsField potter.userName ∧
      entriesOf (potter.passwdFile "/kiln:/clay") =
        [["root", "x", "0", "0", "root", "/root", "/bin/sh"],
          ["joiner", "x", "1000", "1000", "joiner", "/kiln", "/clay", "/bin/sh"]] ∧
      ¬ potter.IsListedIn "/kiln:/clay" (potter.passwdFile "/kiln:/clay") := by
  have hresolve : Graph.resolve kiln "throw" = .ok (machine kiln).graph := by decide +kernel
  have hmade : (Worker.forTask kiln Workshop.host (machine kiln)).madeFor setUp ≠ [] := by
    decide +kernel
  have hcontainer : kiln.container? "wheel" = some (wheel "/kiln:/clay") := by decide
  obtain ⟨history, d, request, hthrough, hd, hcreation⟩ := exists_creation hmade
  obtain ⟨path, hmount, hwritten⟩ :=
    Project.mountsUsers hcontainer rfl rfl hresolve hthrough hd hcreation
  have hentries : entriesOf (potter.passwdFile "/kiln:/clay") =
      [["root", "x", "0", "0", "root", "/root", "/bin/sh"],
        ["joiner", "x", "1000", "1000", "joiner", "/kiln", "/clay", "/bin/sh"]] := by
    decide +kernel
  refine ⟨history, d, request, path, hcontainer, hresolve, hthrough, hd, hcreation, hmount,
    hwritten, by decide, hentries, fun hlisted => ?_⟩
  have hfields := hlisted.fields
  rw [hentries] at hfields
  exact absurd hfields (by decide)

end Pottery

end Stevedore
