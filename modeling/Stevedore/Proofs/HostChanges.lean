import Stevedore.Proofs.Removal

/-!
What a run changes on the host.

Two kinds of steps make something there. One that creates a container which runs as the current user
makes two files and a directory first, and tells of each as soon as it is there
(`Worker.Provides`); whatever fails later, what was made has been told of (`Worker.Provided`). One
that makes the caches ready makes their directories and tells of none. Cleanup asks for the removal
of what was told of, once per path and in the spelling that was told first
(`Scene.CleanedUp.exists_removals`); nothing else is removed.
-/

namespace Stevedore

open Program

/-! ## Changes on record -/

/-- The change with its outcome, if one is made. -/
def Deed.change? : Deed → Option (FileChange × Except FileError Unit)
  | changed request outcome => some (request, outcome)
  | _ => none

theorem mem_changes {record : List Deed} {request : FileChange} {outcome : Except FileError Unit} :
    (request, outcome) ∈ record.filterMap Deed.change? ↔ .changed request outcome ∈ record := by
  rw [List.mem_filterMap]
  constructor
  · rintro ⟨d, hd, hchange⟩
    cases d <;> simp only [Deed.change?, Option.some.injEq, reduceCtorEq] at hchange
    obtain ⟨rfl, rfl⟩ := Prod.mk.inj hchange
    exact hd
  · intro hd
    exact ⟨_, hd, rfl⟩

/-! ## Programs that change few things -/

namespace Program

variable {α β γ : Type} {may : FileChange → Prop}

theorem bind_bind (p : Program α) (f : α → Program β) (g : β → Program γ) :
    (p.bind f).bind g = p.bind fun a => (f a).bind g := by
  induction p with
  | done a => rfl
  | post e next ih => exact congrArg (post e) ih
  | ask call announce next ih => exact congrArg (ask call announce) (funext ih)
  | change request next ih => exact congrArg (change request) (funext ih)

theorem bind_done (p : Program α) : p.bind done = p := by
  induction p with
  | done a => rfl
  | post e next ih => exact congrArg (post e) ih
  | ask call announce next ih => exact congrArg (ask call announce) (funext ih)
  | change request next ih => exact congrArg (change request) (funext ih)

instance : LawfulMonad Program := .mk' Program bind_done (fun _ _ => rfl) bind_bind

/-- Whether the program makes only changes that it may make. -/
inductive Alters (may : FileChange → Prop) {α : Type} : Program α → Prop
  | done (a : α) : Alters may (done a)
  | post {e : Event} {next : Program α} (rest : Alters may next) : Alters may (post e next)
  | ask {call : EngineCall} {announce : Progress → Option Event} {next : Reply call → Program α}
      (rest : ∀ reply, Alters may (next reply)) : Alters may (ask call announce next)
  | change {request : FileChange} {next : Except FileError Unit → Program α} (own : may request)
      (rest : ∀ outcome, Alters may (next outcome)) : Alters may (change request next)

theorem Alters.bind {p : Program α} {f : α → Program β} (hp : p.Alters may)
    (hf : ∀ a, (f a).Alters may) : (p >>= f).Alters may := by
  induction hp with
  | done a => exact hf a
  | post _ ih => exact .post ih
  | ask _ ih => exact .ask ih
  | change own _ ih => exact .change own ih

theorem Alters.tell (e : Event) : (tell e).Alters may := .post (.done ())

theorem Alters.quietly (c : EngineCall) : (quietly c).Alters may := .ask .done

theorem Alters.attempt_bind {x : Attempt α} {f : α → Attempt β} (hx : x.run.Alters may)
    (hf : ∀ a, (f a).run.Alters may) : (x >>= f).run.Alters may := by
  refine hx.bind ?_
  rintro (message | a)
  · exact .done _
  · exact hf a

theorem Alters.engine (context : String) (c : EngineCall) :
    (Attempt.engine context c).run.Alters may := by
  refine (Alters.quietly c).bind ?_
  rintro (e | a)
  · exact .done _
  · exact .done _

theorem Alters.files (context : String) {request : FileChange} (h : may request) :
    (Attempt.files context request).run.Alters may := by
  refine .change h ?_
  rintro (e | _)
  · exact .done _
  · exact .done _

theorem Alters.attempt_lift {p : Program α} (h : p.Alters may) :
    (ExceptT.lift p : Attempt α).run.Alters may :=
  h.bind fun _ => .done _

/-- What is changed on the way to the end is what may be changed. -/
theorem Alters.of_changed {p : Program α} {history : List Deed} {a : α} {request : FileChange}
    {outcome : Except FileError Unit} (hp : p.Alters may) (h : p.Through history a)
    (hd : .changed request outcome ∈ history) : may request := by
  induction hp generalizing history with
  | done =>
    rw [(through_done.1 h).1] at hd
    simp at hd
  | post _ ih =>
    obtain ⟨rest, rfl, hrest⟩ := through_post.1 h
    exact ih hrest (by simpa using hd)
  | ask _ ih =>
    obtain ⟨events, reply, rest, rfl, -, hrest⟩ := through_ask.1 h
    exact ih reply hrest (by simpa using hd)
  | change own _ ih =>
    obtain ⟨outcome', rest, rfl, hrest⟩ := through_change.1 h
    rcases List.mem_cons.1 hd with heq | hd
    · obtain ⟨rfl, -⟩ := Deed.changed.inj heq
      exact own
    · exact ih outcome' hrest hd

end Program

/-! ## What is made on the host -/

namespace Worker

variable {w : Worker} {step : Step} {history history' : List Deed} {request : FileChange}
  {outcome : Except FileError Unit} {e : Event} {path : Path}

/-- Where the run keeps something for a container that runs as the current user. -/
def temporaryPath (w : Worker) (c : Container) (purpose : String) : Path :=
  w.names.temporary w.temporaryDirectory c.name purpose

/-- Whether the path is one at which the run keeps something for a container. -/
def IsTemporary (w : Worker) (path : Path) : Prop :=
  ∃ c ∈ w.graph.containers, c.runsAsCurrentUser = true ∧
    ∃ purpose ∈ ["passwd", "group", "home"], path = w.temporaryPath c purpose

/-- The directories of the caches that the task mounts, unless these are in conflict. -/
def cacheDirectories (w : Worker) : List Path :=
  match Cache.resolve w.graph w.caches with
  | .ok caches => caches.values.filterMap cacheDirectory?
  | .error _ => []

/-- What is made for a container that runs as the current user, with the event that tells of it. -/
inductive Provides (w : Worker) : FileChange → Event → Prop
  | passwd {c : Container} {home : String} (part : c ∈ w.graph.containers)
      (asUser : c.userHome = some home) :
      Provides w (.write (w.temporaryPath c "passwd") (w.user.passwdFile home))
        (.fileCreated c.name (w.temporaryPath c "passwd"))
  | group {c : Container} {home : String} (part : c ∈ w.graph.containers)
      (asUser : c.userHome = some home) :
      Provides w (.write (w.temporaryPath c "group") w.user.groupFile)
        (.fileCreated c.name (w.temporaryPath c "group"))
  | home {c : Container} {home : String} (part : c ∈ w.graph.containers)
      (asUser : c.userHome = some home) :
      Provides w (.createDirectory (w.temporaryPath c "home"))
        (.directoryCreated c.name (w.temporaryPath c "home"))

/-- What is made for a container is a file or a directory, and told of as such. -/
theorem Provides.cases (h : w.Provides request e) :
    (∃ path contents, request = .write path contents ∧ e.file? = some path ∧ e.directory? = none) ∨
      ∃ path, request = .createDirectory path ∧ e.file? = none ∧ e.directory? = some path := by
  cases h with
  | passwd | group => exact .inl ⟨_, _, rfl, rfl, rfl⟩
  | home => exact .inr ⟨_, rfl, rfl, rfl⟩

theorem Provides.isTemporary (h : w.Provides request e) : w.IsTemporary request.path := by
  cases h with
  | passwd part asUser =>
    exact ⟨_, part, by simp [Container.runsAsCurrentUser, asUser], _, by simp, rfl⟩
  | group part asUser =>
    exact ⟨_, part, by simp [Container.runsAsCurrentUser, asUser], _, by simp, rfl⟩
  | home part asUser =>
    exact ⟨_, part, by simp [Container.runsAsCurrentUser, asUser], _, by simp, rfl⟩

/-- Whether all that is made is made for a container that runs as the current user and, if it
could be made, told of; and whether nothing else is told of. -/
structure Provided (w : Worker) (history : List Deed) : Prop where
  changed : ∀ {request outcome}, .changed request outcome ∈ history →
    ∃ e, w.Provides request e ∧ (outcome = .ok () → .posted e ∈ history)
  told : ∀ {e path}, .posted e ∈ history → e.file? = some path ∨ e.directory? = some path →
    ∃ request, w.Provides request e

theorem Provided.append (h : w.Provided history) (h' : w.Provided history') :
    w.Provided (history ++ history') where
  changed := by
    intro request outcome hd
    rcases List.mem_append.1 hd with hd | hd
    · obtain ⟨e, he, hposted⟩ := h.changed hd
      exact ⟨e, he, fun hok => List.mem_append_left _ (hposted hok)⟩
    · obtain ⟨e, he, hposted⟩ := h'.changed hd
      exact ⟨e, he, fun hok => List.mem_append_right _ (hposted hok)⟩
  told := by
    intro e path hd hpath
    rcases List.mem_append.1 hd with hd | hd
    · exact h.told hd hpath
    · exact h'.told hd hpath

/-- What neither changes the host nor tells of it. -/
theorem Provided.of_aside (hchanged : ∀ request outcome, .changed request outcome ∉ history)
    (htold : ∀ e, .posted e ∈ history → e.file? = none ∧ e.directory? = none) :
    w.Provided history where
  changed := fun hd => absurd hd (hchanged _ _)
  told := by
    intro e path hd hpath
    obtain ⟨hfile, hdirectory⟩ := htold e hd
    rw [hfile, hdirectory] at hpath
    simp at hpath

theorem Provided.of_done {α : Type} {a b : α} (h : (done a).Through history b) :
    w.Provided history := by
  rw [(through_done.1 h).1]
  exact .of_aside (by simp) (by simp)

/-- What is told at the end, of something else than a file or a directory. -/
theorem Provided.of_tell (hfile : e.file? = none) (hdirectory : e.directory? = none)
    (h : (tell e).Through history ()) : w.Provided history := by
  rw [through_tell.1 h]
  exact .of_aside (by simp) (by simp [hfile, hdirectory])

theorem Provided.of_reply {call : EngineCall} {reply : Reply call} (h : w.Provided history) :
    w.Provided (.asked call :: .answered call reply :: history) :=
  have haside : w.Provided [.asked call, .answered call reply] := .of_aside (by simp) (by simp)
  haside.append h

/-- A change that is told of as soon as it has been made. -/
theorem Provided.of_change {context : String} {result : Except String Unit}
    (hp : w.Provides request e) (h : (do Attempt.files context request; Attempt.tell e :
      Attempt Unit).run.Through history result) : w.Provided history := by
  have htold : ∀ {e' path}, e' = e → e'.file? = some path ∨ e'.directory? = some path →
      ∃ request, w.Provides request e' := by
    rintro _ path rfl -
    exact ⟨request, hp⟩
  obtain ⟨outcome, rest, rfl, hrest⟩ := through_change.1 h
  cases outcome with
  | error =>
    obtain ⟨rfl, -⟩ := through_done.1 hrest
    refine ⟨?_, by simp⟩
    intro request' outcome hd
    obtain ⟨rfl, rfl⟩ : request' = request ∧ _ := by simpa using hd
    exact ⟨e, hp, by simp⟩
  | ok =>
    obtain ⟨last, rfl, hlast⟩ := through_post.1 hrest
    obtain ⟨rfl, -⟩ := through_done.1 hlast
    refine ⟨?_, fun hd => htold (by simpa using hd)⟩
    intro request' outcome hd
    obtain ⟨rfl, rfl⟩ : request' = request ∧ _ := by simpa using hd
    exact ⟨e, hp, by simp⟩

/-- What is provided in two parts. -/
theorem Provided.of_bind {α β : Type} {x : Attempt α} {f : α → Attempt β} {result : Except String β}
    (hx : ∀ {history result}, x.run.Through history result → w.Provided history)
    (hf : ∀ {a history}, (f a).run.Through history result → w.Provided history)
    (h : (x >>= f).run.Through history result) : w.Provided history := by
  obtain ⟨message, -, hx'⟩ | ⟨a, first, second, rfl, hx', hf'⟩ := Attempt.through_bind.1 h
  · exact hx hx'
  · exact (hx hx').append (hf hf')

/-! ### For the current user -/

theorem provided_userMounts {c : Container} {home : String} {result : Except String (List Mount)}
    (hc : c ∈ w.graph.containers) (hhome : c.userHome = some home)
    (h : (w.userMounts c.name home).run.Through history result) : w.Provided history := by
  unfold userMounts at h
  refine .of_bind (.of_change (.passwd hc hhome)) (fun h => ?_) h
  refine .of_bind (.of_change (.group hc hhome)) (fun h => ?_) h
  -- The directory is made and told of in two steps of the program, where a file takes one.
  rw [← bind_assoc] at h
  exact .of_bind (.of_change (.home hc hhome)) .of_done h

theorem provided_creationRequest {c : Container} {image : Image} {network : Network}
    {result : Except String CreateRequest} (hc : c ∈ w.graph.containers)
    (h : (w.creationRequest c image network).run.Through history result) : w.Provided history := by
  have hcommand : ∀ {history} {result : Except String (List String)},
      (ExceptT.mk (.done (w.containerCommand c)) : Attempt _).run.Through history result →
        w.Provided history := .of_done
  unfold creationRequest at h
  dsimp only at h
  split at h
  · exact .of_bind .of_done (fun h => .of_bind hcommand .of_done h) h
  · next home hhome =>
    exact .of_bind (provided_userMounts hc hhome) (fun h => .of_bind hcommand .of_done h) h

theorem provided_createContainer (hg : w.graph.WellFormed) {c : String} {image : Image}
    {network : Network} (h : (w.createContainer c image network).Through history ()) :
    w.Provided history := by
  unfold createContainer at h
  split at h
  · exact .of_tell rfl rfl h
  · next k hk =>
    have hmem : k ∈ w.graph.containers := by
      rw [Graph.mem_containers hg, Graph.name_of_container? hg hk]
      exact hk
    obtain ⟨result, first, second, rfl, hrequest, hrest⟩ := through_bind.1 h
    refine (provided_creationRequest hmem hrequest).append ?_
    cases result with
    | error message => exact .of_tell rfl rfl hrest
    | ok request =>
      obtain ⟨reply, rest, rfl, hreply⟩ := through_ask_quietly.1 hrest
      refine Provided.of_reply ?_
      cases reply with
      | error e => exact .of_tell rfl rfl hreply
      | ok handle => exact .of_tell rfl rfl hreply

/-! ### For the caches, and by other steps -/

theorem alters_createCacheDirectories {may : FileChange → Prop} {caches : List Cache}
    (h : ∀ path ∈ caches.filterMap cacheDirectory?, may (.createDirectory path)) :
    (createCacheDirectories caches).run.Alters may := by
  induction caches with
  | nil => exact .done _
  | cons cache rest ih =>
    rw [List.filterMap_cons] at h
    unfold createCacheDirectories
    split
    · next path hpath =>
      rw [hpath] at h
      obtain ⟨hfirst, hrest⟩ := List.forall_mem_cons.1 h
      exact (Alters.files _ hfirst).attempt_bind fun _ => ih hrest
    · next hnone =>
      rw [Option.eq_none_iff_forall_not_mem.2 hnone] at h
      exact ih h

theorem alters_handOver (w : Worker) {may : FileChange → Prop} (volumes : List String) :
    (w.handOver volumes).run.Alters may := by
  unfold handOver
  refine (Alters.engine _ _).attempt_bind fun image => ?_
  refine (Alters.engine _ _).attempt_bind fun handle => ?_
  refine Alters.attempt_bind (.attempt_lift ?_) fun result => ?_
  · exact (Alters.engine _ _).attempt_bind fun _ => .engine _ _
  · refine Alters.attempt_bind (.attempt_lift (.quietly _)) fun _ => ?_
    refine Alters.attempt_bind (.done _) fun exitCode => ?_
    split
    · exact .done _
    · exact .done _

theorem alters_initialiseCaches (w : Worker) : w.initialiseCaches.Alters
    fun request => ∃ path ∈ w.cacheDirectories, request = .createDirectory path := by
  refine .bind ?_ ?_
  · unfold prepareCaches
    split
    · exact .done _
    · next caches hcaches =>
      have hdirectories : w.cacheDirectories = caches.values.filterMap cacheDirectory? := by
        rw [cacheDirectories, hcaches]
      refine (alters_createCacheDirectories ?_).attempt_bind fun _ => ?_
      · intro path hpath
        exact ⟨path, hdirectories ▸ hpath, rfl⟩
      · split
        · exact .done _
        · exact w.alters_handOver _
  · rintro (message | _)
    · exact .tell _
    · exact .tell _

theorem alters_told {may : FileChange → Prop} {call : EngineCall} {success : call.Answer → Event}
    {failure : String → Event} : (told call success failure).Alters may := by
  refine .ask ?_
  rintro (e | answer)
  · exact .tell _
  · exact .tell _

theorem alters_buildImage (w : Worker) {may : FileChange → Prop} (c : String) (tags : List String) :
    (w.buildImage c tags).Alters may := by
  unfold buildImage
  split
  · refine .ask ?_
    rintro (e | image)
    · exact .tell _
    · exact .tell _
  · exact .tell _

theorem alters_pullImage {may : FileChange → Prop} (reference : String) :
    (pullImage reference).Alters may := by
  refine .ask ?_
  rintro (e | image)
  · exact .tell _
  · exact .tell _

theorem alters_awaitHealth {may : FileChange → Prop} (c : String) (handle : Handle) :
    (awaitHealth c handle).Alters may := by
  refine .bind ?_ ?_
  · unfold healthProblem?
    refine (Alters.quietly _).bind ?_
    rintro (e | inspection)
    · exact .done _
    dsimp only
    split
    · exact .done _
    · refine (Alters.quietly _).bind ?_
      rintro (e | _ | _ | _)
      · exact .done _
      · exact .done _
      · refine (Alters.quietly _).bind ?_
        rintro (e | inspection)
        · exact .done _
        · exact .done _
      · exact .done _
  · rintro (_ | message)
    · exact .tell _
    · exact .tell _

theorem alters_runSetup (w : Worker) {may : FileChange → Prop} (c : Container) (handle : Handle)
    (index : Nat) (commands : List SetupCommand) :
    (w.runSetup c handle index commands).Alters may := by
  induction commands generalizing index with
  | nil => exact .tell _
  | cons setup rest ih =>
    unfold runSetup
    refine .bind (.tell _) fun _ => ?_
    split
    · exact .tell _
    · refine .ask ?_
      rintro (e | result)
      · exact .tell _
      · show Alters _ (if _ then _ else _)
        split
        · exact ih _
        · exact .tell _

/-- A step that creates no container and takes nothing down changes nothing on the host, unless it
makes the directories of the caches. -/
theorem alters_perform (hs : step.isTeardown = false)
    (hcreate : ∀ c image network, step ≠ .createContainer c image network) :
    (w.perform step).Alters
      fun request => ∃ path ∈ w.cacheDirectories, request = .createDirectory path := by
  cases step with
  | createNetwork | startContainer | runContainer => exact alters_told
  | initialiseCaches => exact w.alters_initialiseCaches
  | buildImage c tags => exact w.alters_buildImage c tags
  | pullImage reference => exact alters_pullImage reference
  | createContainer c image network => exact absurd rfl (hcreate c image network)
  | awaitHealth c handle => exact alters_awaitHealth c handle
  | runSetupCommands c handle =>
    unfold perform runSetupCommands
    dsimp only
    split
    · exact .tell _
    · exact w.alters_runSetup ..
  | stopContainer | removeContainer | deleteFile | deleteDirectory | deleteNetwork =>
    simp [Step.isTeardown] at hs

/-- **What a step makes on the host** is made for a container and told of, or is the directory of a
cache. -/
theorem changed_perform (hg : w.graph.WellFormed) (hs : step.isTeardown = false)
    (h : (w.perform step).Through history ()) (hd : .changed request outcome ∈ history) :
    (∃ e, w.Provides request e ∧ (outcome = .ok () → .posted e ∈ history)) ∨
      ∃ path ∈ w.cacheDirectories, request = .createDirectory path := by
  by_cases hcreate : ∃ c image network, step = .createContainer c image network
  · obtain ⟨c, image, network, rfl⟩ := hcreate
    exact .inl ((provided_createContainer hg h).changed hd)
  · refine .inr ((alters_perform hs ?_).of_changed h hd)
    rintro c image network rfl
    exact hcreate ⟨c, image, network, rfl⟩

/-- Only what is made for a container is told of. -/
theorem told_perform (hg : w.graph.WellFormed) (h : (w.perform step).Through history ())
    (hd : .posted e ∈ history) (hpath : e.file? = some path ∨ e.directory? = some path) :
    ∃ request, w.Provides request e := by
  have hmay := h.within (tells_perform hg step).within _ hd
  cases step with
  | createContainer c image network => exact (provided_createContainer hg h).told hd hpath
  | _ =>
    rcases hmay with hmay | hmay | hmay <;> cases hmay <;>
      simp [Event.file?, Event.directory?] at hpath

theorem createdDirectories {caches : List Cache}
    (h : (createCacheDirectories caches).run.Through history (.ok ())) :
    ∀ path ∈ caches.filterMap cacheDirectory?,
      .changed (.createDirectory path) (.ok ()) ∈ history := by
  induction caches generalizing history with
  | nil => simp
  | cons cache rest ih =>
    rw [List.filterMap_cons]
    unfold createCacheDirectories at h
    split at h
    · next path hpath =>
      obtain ⟨_, first, second, rfl, hfirst, hsecond⟩ := Attempt.through_bind_ok h
      obtain ⟨outcome, last, rfl, hlast⟩ := through_change.1 hfirst
      rw [hpath]
      refine List.forall_mem_cons.2
        ⟨?_, fun path hpath => List.mem_append_right _ (ih hsecond path hpath)⟩
      cases outcome with
      | error e => nomatch (through_done.1 hlast).2
      | ok => simp
    · next hnone =>
      rw [Option.eq_none_iff_forall_not_mem.2 hnone]
      exact ih h

/-- Where the caches are ready their directories have been made. -/
theorem directories_of_initialised (hg : w.graph.WellFormed)
    (h : (w.perform step).Through history ()) (hd : .posted .cachesInitialised ∈ history) :
    ∀ path ∈ w.cacheDirectories, .changed (.createDirectory path) (.ok ()) ∈ history := by
  have hmay := h.within (tells_perform hg step).within _ hd
  obtain rfl : step = .initialiseCaches := by
    rcases hmay with hmay | hmay | hmay <;> cases hmay
    rfl
  obtain ⟨result, first, second, rfl, hprepare, hsecond⟩ := through_bind.1 h
  have hsilent : w.prepareCaches.run.Within (fun _ => False) w.HandsOver := w.within_prepareCaches
  have hposted : .posted .cachesInitialised ∉ first := hprepare.within hsilent _
  cases result with
  | error message =>
    obtain rfl := through_tell.1 hsecond
    exact absurd hd (by simpa using hposted)
  | ok =>
    unfold prepareCaches at hprepare
    split at hprepare
    · nomatch (through_done.1 hprepare).2
    · next caches hcaches =>
      obtain ⟨_, directories, rest, rfl, hdirectories, -⟩ := Attempt.through_bind_ok hprepare
      intro path hpath
      rw [cacheDirectories, hcaches] at hpath
      have hcreated := createdDirectories hdirectories path hpath
      exact List.mem_append_left _ (List.mem_append_left _ hcreated)

/-! ### By steps that take something down -/

end Worker

/-- What a step that takes something down changes on the host, if it is there. -/
def Step.change? : Step → Option FileChange
  | deleteFile path => some (.removeFile path)
  | deleteDirectory path => some (.removeDirectory path)
  | _ => none

theorem Step.change?_eq_some {step : Step} {removal : FileChange}
    (h : step.change? = some removal) :
    (∃ path, step = .deleteFile path ∧ removal = .removeFile path) ∨
      ∃ path, step = .deleteDirectory path ∧ removal = .removeDirectory path := by
  cases step <;> simp only [change?, Option.some.injEq, reduceCtorEq] at h
  · exact .inl ⟨_, rfl, h.symm⟩
  · exact .inr ⟨_, rfl, h.symm⟩

namespace Worker

variable {w : Worker} {step : Step} {history : List Deed}

theorem changed_teardown (hs : step.isTeardown = true) (h : (w.perform step).Through history ())
    {removal : FileChange} :
    (∃ outcome, .changed removal outcome ∈ history) ↔ step.change? = some removal := by
  cases step with
  | stopContainer | removeContainer | deleteNetwork =>
    rcases through_told h with ⟨answer, rfl⟩ | ⟨e, rfl⟩ <;> simp [Step.change?]
  | deleteFile | deleteDirectory =>
    obtain ⟨outcome, e, rfl⟩ := through_toldChange h
    simp [Step.change?, eq_comm]
  | _ => simp [Step.isTeardown] at hs

end Worker

/-! ## Runs -/

namespace Moment.Reachable

variable {m : Machine} {t : Moment} {path : Path}

/-- The plan deletes every file that was told of, in the spelling that was told first. -/
theorem fileDeletion_mem_iff (hg : m.graph.WellFormed) (h : Reachable m t) :
    .deleteFile path ∈ (m.graph.teardownPlan (.ofEvents t.log)).steps ↔
      path.FirstIn (t.log.filterMap Event.file?) := by
  rw [Graph.mem_steps_teardownPlan hg fun _ _ => h.mem_names hg]
  have hnot : ¬ (Milestone.fileDeleted path.key).ReachedIn t.log :=
    h.not_reachedIn_of_isTeardown hg (s := .deleteFile path) rfl
  constructor
  · exact And.right
  · intro hfirst
    exact ⟨⟨⟨path, hfirst.mem, rfl⟩, hnot⟩, hfirst⟩

theorem directoryDeletion_mem_iff (hg : m.graph.WellFormed) (h : Reachable m t) :
    .deleteDirectory path ∈ (m.graph.teardownPlan (.ofEvents t.log)).steps ↔
      path.FirstIn (t.log.filterMap Event.directory?) := by
  rw [Graph.mem_steps_teardownPlan hg fun _ _ => h.mem_names hg]
  have hnot : ¬ (Milestone.directoryDeleted path.key).ReachedIn t.log :=
    h.not_reachedIn_of_isTeardown hg (s := .deleteDirectory path) rfl
  constructor
  · exact And.right
  · intro hfirst
    exact ⟨⟨⟨path, hfirst.mem, rfl⟩, hnot⟩, hfirst⟩

end Moment.Reachable

/-- Whether one change takes away what the other has made. -/
inductive FileChange.Reverses : FileChange → FileChange → Prop
  | file {path path' : Path} {contents : String} (same : path.key = path'.key) :
      Reverses (.removeFile path) (.write path' contents)
  | directory {path path' : Path} (same : path.key = path'.key) :
      Reverses (.removeDirectory path) (.createDirectory path')

namespace Scene

section RunStage

variable {w : Worker} {m : Machine} {s : Scene} (hw : w.graph = m.graph) (hg : m.graph.WellFormed)
  (h : Reachable w m s) (hi : s.IsIdle)

include hw hg h hi

/-- What a run stage makes on the host is told of, or is the directory of a cache. -/
theorem Reachable.changed {request : FileChange} {outcome : Except FileError Unit}
    (hd : .changed request outcome ∈ s.record) :
    (∃ e, w.Provides request e ∧ (outcome = .ok () → e ∈ s.log)) ∨
      ∃ path ∈ w.cacheDirectories, request = .createDirectory path := by
  obtain ⟨e, heq, -⟩ | ⟨step, history, hd, hsub, hthrough, hallowed⟩ := h.deed_cases hw hg hi hd
  · simp at heq
  refine (Worker.changed_perform (hw ▸ hg) hallowed.isTeardown hthrough hd).imp_left ?_
  rintro ⟨e, he, hposted⟩
  exact ⟨e, he, fun hok => mem_eventsOf.2 (hsub.subset (hposted hok))⟩

/-- Only what was made for a container is told of. -/
theorem Reachable.provides_of_told {e : Event} {path : Path} (he : e ∈ s.log)
    (hpath : e.file? = some path ∨ e.directory? = some path) : ∃ request, w.Provides request e := by
  obtain ⟨other, heq, hremark⟩ | ⟨step, history, hd, -, hthrough, -⟩ :=
    h.deed_cases hw hg hi (mem_eventsOf.1 he)
  · obtain rfl := Deed.posted.inj heq
    cases e <;> first | exact hremark.elim | simp [Event.file?, Event.directory?] at hpath
  · exact Worker.told_perform (hw ▸ hg) hthrough hd hpath

theorem Reachable.directories_of_initialised (he : .cachesInitialised ∈ s.log) :
    ∀ path ∈ w.cacheDirectories, .changed (.createDirectory path) (.ok ()) ∈ s.record := by
  obtain ⟨other, heq, hremark⟩ | ⟨step, history, hd, hsub, hthrough, -⟩ :=
    h.deed_cases hw hg hi (mem_eventsOf.1 he)
  · obtain rfl := Deed.posted.inj heq
    exact hremark.elim
  · intro path hpath
    exact hsub.subset (Worker.directories_of_initialised (hw ▸ hg) hthrough hd path hpath)

end RunStage

namespace CleanedUp

variable {w : Worker} {m : Machine} {s u : Scene} {step : Step} {removal request : FileChange}
  {e : Event}

/-- The plan takes away only what was made for a container. -/
theorem exists_reverses (h : CleanedUp w m s u)
    (hs : step ∈ (m.graph.teardownPlan (.ofEvents s.log)).steps)
    (hr : step.change? = some removal) :
    ∃ request e, w.Provides request e ∧ removal.Reverses request := by
  obtain ⟨t, ht, hmirrors⟩ := h.reachable.mirrors h.graph h.wellFormed
  rw [← hmirrors.log] at hs
  obtain ⟨path, rfl, rfl⟩ | ⟨path, rfl, rfl⟩ := Step.change?_eq_some hr
  · obtain ⟨e, he, hfile⟩ := List.mem_filterMap.1 ((ht.fileDeletion_mem_iff h.wellFormed).1 hs).mem
    obtain ⟨request, hp⟩ :=
      h.reachable.provides_of_told h.graph h.wellFormed h.idle (hmirrors.log ▸ he) (.inl hfile)
    obtain ⟨path', contents, rfl, hfile', -⟩ | ⟨path', rfl, hnone, -⟩ := hp.cases
    · obtain rfl := Option.some.inj (hfile.symm.trans hfile')
      exact ⟨_, e, hp, .file rfl⟩
    · simp [hfile] at hnone
  · obtain ⟨e, he, hdirectory⟩ :=
      List.mem_filterMap.1 ((ht.directoryDeletion_mem_iff h.wellFormed).1 hs).mem
    obtain ⟨request, hp⟩ :=
      h.reachable.provides_of_told h.graph h.wellFormed h.idle (hmirrors.log ▸ he) (.inr hdirectory)
    obtain ⟨path', contents, rfl, -, hnone⟩ | ⟨path', rfl, -, hdirectory'⟩ := hp.cases
    · simp [hdirectory] at hnone
    · obtain rfl := Option.some.inj (hdirectory.symm.trans hdirectory')
      exact ⟨_, e, hp, .directory rfl⟩

/-- The plan takes away all that was told of. -/
theorem exists_step_of_told (h : CleanedUp w m s u) (hp : w.Provides request e) (he : e ∈ s.log) :
    ∃ step ∈ (m.graph.teardownPlan (.ofEvents s.log)).steps, ∃ removal,
      step.change? = some removal ∧ removal.Reverses request := by
  obtain ⟨t, ht, hmirrors⟩ := h.reachable.mirrors h.graph h.wellFormed
  rw [← hmirrors.log] at he ⊢
  obtain ⟨path, contents, rfl, hfile, -⟩ | ⟨path, rfl, -, hdirectory⟩ := hp.cases
  · obtain ⟨first, hkey, hfirst⟩ := Path.exists_firstIn (List.mem_filterMap.2 ⟨e, he, hfile⟩)
    exact ⟨_, (ht.fileDeletion_mem_iff h.wellFormed).2 hfirst, _, rfl, .file hkey⟩
  · obtain ⟨first, hkey, hfirst⟩ := Path.exists_firstIn (List.mem_filterMap.2 ⟨e, he, hdirectory⟩)
    exact ⟨_, (ht.directoryDeletion_mem_iff h.wellFormed).2 hfirst, _, rfl, .directory hkey⟩

/-- **Cleanup takes away what was told of**, and nothing else that is on the host. -/
theorem exists_removals (h : CleanedUp w m s u) : ∃ record, u.record = s.record ++ record ∧
    (∀ removal outcome, .changed removal outcome ∈ record →
      ∃ request e, w.Provides request e ∧ removal.Reverses request) ∧
    ∀ request e, w.Provides request e → e ∈ s.log →
      ∃ removal outcome, .changed removal outcome ∈ record ∧ removal.Reverses request := by
  obtain ⟨remarks, hands, record, hfollows, hsteps, hthrough⟩ := h.cleaned.parts h.idle.2
  have hplanned : ∀ hand ∈ hands,
      hand.step ∈ (m.graph.teardownPlan (.ofEvents s.log)).steps := by
    intro hand hhand
    rw [TeardownPlan.steps, ← hsteps]
    exact List.mem_map_of_mem hhand
  have hchanged : ∀ hand ∈ hands, ∀ removal,
      (∃ outcome, .changed removal outcome ∈ hand.history) ↔ hand.step.change? = some removal :=
    fun hand hhand _ => Worker.changed_teardown
      (Graph.isTeardown_of_mem_teardownPlan (hplanned hand hhand)) (hthrough hand hhand)
  refine ⟨record, hfollows.record_eq, ?_, ?_⟩
  · intro removal outcome hd
    obtain ⟨e, heq, -⟩ | ⟨hand, hhand, hd⟩ := hfollows.deed_cases hd
    · simp at heq
    exact h.exists_reverses (hplanned hand hhand) ((hchanged hand hhand removal).1 ⟨outcome, hd⟩)
  · intro request e hp he
    obtain ⟨step, hs, removal, hr, hreverses⟩ := h.exists_step_of_told hp he
    rw [TeardownPlan.steps, ← hsteps] at hs
    obtain ⟨hand, hhand, rfl⟩ := List.mem_map.1 hs
    obtain ⟨outcome, hd⟩ := (hchanged hand hhand removal).2 hr
    exact ⟨removal, outcome, (hfollows.inside hand hhand).subset hd, hreverses⟩

end CleanedUp

end Scene

end Stevedore
