import Stevedore.Proofs.Account
import Stevedore.Proofs.SceneRun

/-!
What a run may rely on when it has a step carried out.

That a step ends with one event of its own was shown for its conduct (`Worker.tells_perform`). Here
it is said which event this is: success is told exactly if nothing that matters to the step went
wrong. Most of that are replies and results (`Step.GoesWell`); the rest can be told before the step
begins (`Worker.Prepared`).

The proof follows the program of each step. `Program.SucceedsIf` says under which condition a
program ends with success, besides everything going well on its way, and has a rule for each way to
go on; after a call the condition is that the reply was a good one as well. The programs that may
break off have rules of the same form (`Attempt.SucceedsIf`). Only where volumes are handed over
something is done that does not matter: the container is removed however it exits, and whether this
succeeds nobody asks.
-/

namespace Stevedore

/-! ## What matters to a step -/

/-- Whether the step may still succeed after this. -/
def Step.GoesWell (step : Step) : Deed → Prop
  /- The container that hands volumes over need not be removed. -/
  | .answered (.removeContainer _) reply => step = .initialiseCaches ∨ ∃ a, reply = .ok a
  | .answered (.waitForExit _) (.ok (exitCode : Int)) => step = .initialiseCaches → exitCode = 0
  | .answered (.exec _) (.ok (result : ExecResult)) => result.exitCode = 0
  | .answered (.waitForEvent ..) (.ok (event : HealthEvent)) => event = .healthy
  | .answered _ reply => ∃ a, reply = .ok a
  | .changed _ result => ∃ a, result = .ok a
  | .posted _ | .asked _ => True

/-- Whether the event carries what the engine has returned to the step. -/
def Step.Returns (history : List Deed) : Step → Event → Prop
  | createNetwork, .networkCreated network =>
    ∃ name driver, .answered (.createNetwork name driver) (.ok network) ∈ history
  | buildImage .., .imageBuilt _ image =>
    ∃ request, .answered (.buildImage request) (.ok image) ∈ history
  | pullImage reference, .imagePulled _ image =>
    .answered (.pullImage reference false) (.ok image) ∈ history
  | createContainer .., .containerCreated _ handle =>
    ∃ request, .answered (.createContainer request) (.ok handle) ∈ history
  | runContainer _ handle, .containerExited _ exitCode =>
    .answered (.waitForExit handle) (.ok exitCode) ∈ history
  | _, _ => True

/-- Whether the step is about a container of the graph, if it is about one, and builds the image
only of one that is built. -/
def Step.FitsIn (g : Graph) (step : Step) : Prop :=
  ∀ c, step.container? = some c → ∃ k, g.container? c = some k ∧
    ∀ tags, step = .buildImage c tags →
      ∃ directory dockerfile arguments, k.image = .build directory dockerfile arguments

namespace Worker

variable (w : Worker)

/-- The command that is set for the container, in the task or in its own settings. -/
def configuredCommand? (c : Container) : Option String :=
  if w.graph.isMain c.name then w.graph.run.command <|> c.command else c.command

/-- The commands that the step splits into words. -/
def commandsOf : Step → List String
  | .createContainer c _ _ => ((w.graph.container? c).bind w.configuredCommand?).toList
  | .runSetupCommands c _ => ((w.graph.container? c).elim [] (·.setupCommands)).map (·.command)
  | _ => []

/-- Whether the settings let the step succeed. -/
structure Prepared (step : Step) : Prop where
  commands : ∀ command ∈ w.commandsOf step, ∃ words, Command.words command = .ok words
  caches : step = .initialiseCaches → ∃ caches, Cache.resolve w.graph w.caches = .ok caches

/-- What a step that has come to its end has kept to: it has told of its progress, then how it
ended, and nothing else. -/
structure Contract (step : Step) (history : List Deed) (before : List Event) (last : Event) :
    Prop where
  events : eventsOf history = before ++ [last]
  /-- Nothing is done after the last event. -/
  finished : history.getLast? = some (.posted last)
  progress : ∀ e ∈ before, step.Reports e ∧ ∀ other : Step, ¬ other.EndsWith e
  ends : step.EndsWith last
  returns : step.Succeeds last → step.Returns history last
  succeeds_iff : step.Succeeds last ↔ w.Prepared step ∧ ∀ d ∈ history, step.GoesWell d

end Worker

@[simp] theorem Step.goesWell_posted (step : Step) (e : Event) : step.GoesWell (.posted e) :=
  trivial

@[simp] theorem Step.goesWell_asked (step : Step) (call : EngineCall) :
    step.GoesWell (.asked call) := trivial

@[simp] theorem Step.goesWell_changed {step : Step} {request : FileChange}
    {result : Except FileError Unit} :
    step.GoesWell (.changed request result) ↔ ∃ a, result = .ok a := Iff.rfl

/-- A call that fails goes well only where it does not matter. -/
theorem Step.goesWell_error {step : Step} {call : EngineCall} {e : EngineError} :
    step.GoesWell (.answered call (.error e)) ↔
      step = .initialiseCaches ∧ ∃ handle, call = .removeContainer handle := by
  cases call <;> simp [GoesWell]

/-! ## Events that end a step -/

theorem Step.Fails.not_succeeds {step : Step} {e : Event} (h : step.Fails e) :
    ¬ step.Succeeds e := by
  intro hs
  have hmilestone := hs.milestone?
  rw [h.milestone?] at hmilestone
  simp at hmilestone

theorem Step.Reports.not_endsWith {step other : Step} {e : Event} (h : step.Reports e) :
    ¬ other.EndsWith e := by
  rintro (h' | h') <;> cases h <;> cases h'

namespace Program

variable {α : Type} {step : Step} {c c' : Prop} {p : Program Unit} {history : List Deed}

/-- Until its last event a step only tells of its progress. -/
theorem Tells.through (h : p.Tells step) (ht : p.Through history ()) :
    ∃ before last, eventsOf history = before ++ [last] ∧
      history.getLast? = some (.posted last) ∧ (∀ e ∈ before, step.Reports e) ∧
      step.EndsWith last := by
  induction h generalizing history with
  | @last e own =>
    obtain rfl := through_tell.1 ht
    exact ⟨[], e, rfl, rfl, by simp, own⟩
  | @post e next own _ ih =>
    obtain ⟨rest, rfl, hrest⟩ := through_post.1 ht
    obtain ⟨before, last, hevents, hlast, hall, hend⟩ := ih hrest
    refine ⟨e :: before, last, ?_, ?_, List.forall_mem_cons.2 ⟨own, hall⟩, hend⟩
    · rw [List.cons_append, ← hevents]
      rfl
    · rw [List.getLast?_cons, hlast, Option.getD_some]
  | ask _ own _ ih =>
    obtain ⟨events, reply, rest, rfl, htold, hrest⟩ := through_ask.1 ht
    obtain ⟨before, last, hevents, hlast, hall, hend⟩ := ih reply hrest
    refine ⟨events ++ before, last, ?_, ?_, ?_, hend⟩
    · rw [List.append_assoc, ← hevents]
      simp [eventsOf, List.filterMap_cons, List.filterMap_map, Function.comp_def, Deed.event?]
    · simp [List.getLast?_cons, List.getLast?_append, hlast]
    · refine List.forall_mem_append.2 ⟨?_, hall⟩
      intro e he
      obtain ⟨progress, hp⟩ := htold e he
      exact own progress e hp
  | change _ ih =>
    obtain ⟨result, rest, rfl, hrest⟩ := through_change.1 ht
    obtain ⟨before, last, hevents, hlast, hall, hend⟩ := ih result hrest
    refine ⟨before, last, hevents, ?_, hall, hend⟩
    rw [List.getLast?_cons, hlast, Option.getD_some]

/-! ## When a program ends with success -/

/-- Whether the program ends with the success of the step exactly if this holds and everything goes
well on the way. -/
def SucceedsIf (step : Step) (c : Prop) (p : Program Unit) : Prop :=
  ∀ history, p.Through history () → ∃ last, history.getLast? = some (.posted last) ∧
    (step.Succeeds last ↔ c ∧ ∀ d ∈ history, step.GoesWell d)

namespace SucceedsIf

theorem congr (h : p.SucceedsIf step c) (hc : c ↔ c') : p.SucceedsIf step c' := by
  rwa [propext hc] at h

theorem success {e : Event} (h : step.Succeeds e) (hc : c) : (tell e).SucceedsIf step c := by
  intro history ht
  obtain rfl := through_tell.1 ht
  exact ⟨e, rfl, iff_of_true h ⟨hc, by simp⟩⟩

theorem failure {e : Event} (h : step.Fails e) (hc : ¬ c) : (tell e).SucceedsIf step c := by
  intro history ht
  obtain rfl := through_tell.1 ht
  exact ⟨e, rfl, iff_of_false h.not_succeeds fun h => hc h.1⟩

theorem post {e : Event} {next : Program Unit} (h : next.SucceedsIf step c) :
    (post e next).SucceedsIf step c := by
  intro history ht
  obtain ⟨rest, rfl, hrest⟩ := through_post.1 ht
  obtain ⟨last, hlast, hiff⟩ := h rest hrest
  refine ⟨last, by rw [List.getLast?_cons, hlast, Option.getD_some], ?_⟩
  rw [hiff, List.forall_mem_cons]
  simp

/-- After a call it is asked besides that the reply lets the step succeed. -/
theorem ask {call : EngineCall} {announce : Progress → Option Event}
    {next : Reply call → Program Unit}
    (h : ∀ reply, (next reply).SucceedsIf step (c ∧ step.GoesWell (.answered call reply))) :
    (ask call announce next).SucceedsIf step c := by
  intro history ht
  obtain ⟨events, reply, rest, rfl, -, hrest⟩ := through_ask.1 ht
  obtain ⟨last, hlast, hiff⟩ := h reply rest hrest
  refine ⟨last, by simp [List.getLast?_cons, List.getLast?_append, hlast], ?_⟩
  have hposted : ∀ d ∈ events.map Deed.posted, step.GoesWell d := by
    simp
  rw [hiff, List.forall_mem_cons, List.forall_mem_append, List.forall_mem_cons, and_assoc]
  simp only [Step.goesWell_asked, true_and, iff_true_intro hposted]

theorem change {request : FileChange} {next : Except FileError Unit → Program Unit}
    (h : ∀ result, (next result).SucceedsIf step (c ∧ step.GoesWell (.changed request result))) :
    (change request next).SucceedsIf step c := by
  intro history ht
  obtain ⟨result, rest, rfl, hrest⟩ := through_change.1 ht
  obtain ⟨last, hlast, hiff⟩ := h result rest hrest
  refine ⟨last, by rw [List.getLast?_cons, hlast, Option.getD_some], ?_⟩
  rw [hiff, List.forall_mem_cons, and_assoc]

end SucceedsIf

end Program

/-! ## When a part of a program yields what is hoped for -/

namespace Program

variable {α β : Type} {step : Step} {good : α → Prop} {good' : β → Prop} {c c' : Prop}

/-- Whether the program yields something good exactly if this holds and everything goes well on the
way. -/
def Yields (step : Step) (good : α → Prop) (c : Prop) (p : Program α) : Prop :=
  ∀ history a, p.Through history a → (good a ↔ c ∧ ∀ d ∈ history, step.GoesWell d)

namespace Yields

theorem congr {p : Program α} (h : p.Yields step good c) (hc : c ↔ c') : p.Yields step good c' := by
  rwa [propext hc] at h

theorem done {a : α} (h : good a ↔ c) : (done a).Yields step good c := by
  intro history a' ht
  obtain ⟨rfl, rfl⟩ := through_done.1 ht
  simp [h]

theorem post {e : Event} {next : Program α} (h : next.Yields step good c) :
    (post e next).Yields step good c := by
  intro history a ht
  obtain ⟨rest, rfl, hrest⟩ := through_post.1 ht
  rw [h rest a hrest, List.forall_mem_cons]
  simp

theorem ask {call : EngineCall} {next : Reply call → Program α}
    (h : ∀ reply, (next reply).Yields step good (c ∧ step.GoesWell (.answered call reply))) :
    (ask call (fun _ => none) next).Yields step good c := by
  intro history a ht
  obtain ⟨reply, rest, rfl, hrest⟩ := through_ask_quietly.1 ht
  rw [h reply rest a hrest, List.forall_mem_cons, List.forall_mem_cons, and_assoc]
  simp only [Step.goesWell_asked, true_and]

theorem change {request : FileChange} {next : Except FileError Unit → Program α}
    (h : ∀ result, (next result).Yields step good (c ∧ step.GoesWell (.changed request result))) :
    (change request next).Yields step good c := by
  intro history a ht
  obtain ⟨result, rest, rfl, hrest⟩ := through_change.1 ht
  rw [h result rest a hrest, List.forall_mem_cons, and_assoc]

/-- If the first part does not yield what is hoped for, then the whole does not either. -/
theorem bind {p : Program α} {f : α → Program β} (hp : p.Yields step good c)
    (hbad : ∀ a, ¬ good a → (f a).Yields step good' False)
    (hgood : ∀ a, good a → (f a).Yields step good' c') : (p >>= f).Yields step good' (c ∧ c') := by
  intro history b ht
  obtain ⟨a, first, second, rfl, hfirst, hsecond⟩ := through_bind.1 ht
  rw [List.forall_mem_append]
  by_cases hg : good a
  · obtain ⟨hc, hall⟩ := (hp first a hfirst).1 hg
    rw [hgood a hg second b hsecond]
    simp only [hc, true_and, iff_true_intro hall]
  · have hnot := (hp first a hfirst).not.1 hg
    rw [hbad a hg second b hsecond]
    tauto

theorem lift {p : Program α} (hp : p.Yields step good c) :
    (ExceptT.lift p : Attempt α).run.Yields step
      (fun result => ∃ a, result = .ok a ∧ good a) c := by
  intro history result ht
  obtain ⟨a, rfl, hthrough⟩ := Attempt.through_lift.1 ht
  rw [← hp history a hthrough]
  simp

end Yields

/-- If a part does not yield what is hoped for, then the step does not succeed. -/
theorem SucceedsIf.bind {p : Program α} {f : α → Program Unit} (hp : p.Yields step good c)
    (hbad : ∀ a, ¬ good a → (f a).SucceedsIf step False)
    (hgood : ∀ a, good a → (f a).SucceedsIf step c') : (p >>= f).SucceedsIf step (c ∧ c') := by
  intro history ht
  obtain ⟨a, first, second, rfl, hfirst, hsecond⟩ := through_bind.1 ht
  rw [List.forall_mem_append]
  by_cases hg : good a
  · obtain ⟨last, hlast, hiff⟩ := hgood a hg second hsecond
    obtain ⟨hc, hall⟩ := (hp first a hfirst).1 hg
    refine ⟨last, by rw [List.getLast?_append, hlast]; rfl, ?_⟩
    rw [hiff]
    simp only [hc, true_and, iff_true_intro hall]
  · obtain ⟨last, hlast, hiff⟩ := hbad a hg second hsecond
    have hnot := (hp first a hfirst).not.1 hg
    refine ⟨last, by rw [List.getLast?_append, hlast]; rfl, ?_⟩
    rw [hiff]
    tauto

end Program

/-! ## When an attempt succeeds -/

namespace Attempt

open Program

variable {α β : Type} {step : Step} {c c' : Prop}

/-- Whether the attempt succeeds exactly if this holds and everything goes well on the way. -/
def SucceedsIf (step : Step) (c : Prop) (x : Attempt α) : Prop :=
  x.run.Yields step (fun result => ∃ a, result = .ok a) c

namespace SucceedsIf

theorem congr {x : Attempt α} (h : x.SucceedsIf step c) (hc : c ↔ c') : x.SucceedsIf step c' :=
  Yields.congr h hc

/-- What does nothing succeeds if its result says so. -/
theorem of_done (result : Except String α) :
    SucceedsIf step (∃ a, result = .ok a) (ExceptT.mk (.done result)) :=
  Yields.done Iff.rfl

theorem pure (a : α) : SucceedsIf step True (Pure.pure a) :=
  (of_done (.ok a)).congr (iff_true_intro ⟨a, rfl⟩)

theorem throw (message : String) : SucceedsIf step False (throw message : Attempt α) :=
  (of_done (.error message)).congr (by simp)

theorem bind {x : Attempt α} {f : α → Attempt β} (hx : x.SucceedsIf step c)
    (hf : ∀ a, (f a).SucceedsIf step c') : (x >>= f).SucceedsIf step (c ∧ c') := by
  refine Yields.bind hx ?_ ?_
  · rintro (message | a) hbad
    · exact throw message
    · exact absurd ⟨a, rfl⟩ hbad
  · rintro _ ⟨a, rfl⟩
    exact hf a

/-- After a part that succeeds if all goes well, the rest decides. -/
theorem bind_true {x : Attempt α} {f : α → Attempt β} (hx : x.SucceedsIf step True)
    (hf : ∀ a, (f a).SucceedsIf step c) : (x >>= f).SucceedsIf step c :=
  (bind hx hf).congr (iff_of_eq (true_and c))

/-- A call of which every failure matters. -/
theorem engine {context : String} {call : EngineCall}
    (h : ∀ reply : Reply call, step.GoesWell (.answered call reply) ↔ ∃ a, reply = .ok a) :
    SucceedsIf step True (engine context call) := by
  refine Yields.ask ?_
  rintro (e | a)
  · exact .done (by simp [h])
  · exact .done (by simp [h])

theorem files (context : String) (request : FileChange) :
    SucceedsIf step True (files context request) := by
  refine Yields.change ?_
  rintro (e | a)
  · exact .done (by simp)
  · exact .done (by simp)

theorem tell (e : Event) : SucceedsIf step True (tell e) :=
  Yields.post (.done (by simp))

end SucceedsIf

end Attempt

/-! ## The programs of the steps -/

namespace Worker

open Program

variable {w : Worker} {step : Step}

theorem succeedsIf_told {call : EngineCall} {success : call.Answer → Event}
    {failure : String → Event} (hs : ∀ answer, step.Succeeds (success answer))
    (hf : ∀ message, step.Fails (failure message))
    (h : ∀ reply : Reply call, step.GoesWell (.answered call reply) ↔ ∃ a, reply = .ok a) :
    (told call success failure).SucceedsIf step True := by
  refine .ask ?_
  rintro (e | answer)
  · exact .failure (hf _) (by simp [h])
  · exact .success (hs answer) (by simp [h])

theorem succeedsIf_toldChange {request : FileChange} {success : Event} {failure : String → Event}
    (hs : step.Succeeds success) (hf : ∀ message, step.Fails (failure message)) :
    (toldChange request success failure).SucceedsIf step True := by
  refine .change ?_
  rintro (e | a)
  · exact .failure (hf _) (by simp)
  · exact .success hs (by simp)

/-! ### Caches -/

theorem succeedsIf_createCacheDirectories (caches : List Cache) :
    (createCacheDirectories caches).SucceedsIf step True := by
  induction caches with
  | nil => exact .pure ()
  | cons cache rest ih =>
    unfold createCacheDirectories
    split
    · exact Attempt.SucceedsIf.bind_true (.files _ _) fun _ => ih
    · exact ih

/-- The container that hands volumes over has done so if it exits with zero. -/
theorem yields_exit (handle : Handle) (context context' : String) :
    (Attempt.engine context (.startContainer handle) >>= fun _ =>
      Attempt.engine context' (.waitForExit handle)).run.Yields
        .initialiseCaches (· = .ok (0 : Int)) True := by
  have hstart : (Attempt.engine context (.startContainer handle)).SucceedsIf .initialiseCaches
      True := .engine fun _ => Iff.rfl
  refine (Yields.bind hstart ?_ ?_).congr (and_self_iff)
  · rintro (message | a) hbad
    · exact .done (by simp)
    · exact absurd ⟨a, rfl⟩ hbad
  · rintro _ ⟨a, rfl⟩
    refine .ask ?_
    rintro (e | (exitCode : Int))
    · exact .done (by simp [Step.goesWell_error])
    · have hwell : Step.initialiseCaches.GoesWell (.answered (.waitForExit handle) (.ok exitCode)) ↔
          exitCode = 0 := by
        simp [Step.GoesWell]
      exact .done (by rw [hwell, true_and]; exact ⟨Except.ok.inj, congrArg _⟩)

theorem succeedsIf_handOver (w : Worker) (volumes : List String) :
    (w.handOver volumes).SucceedsIf .initialiseCaches True := by
  unfold handOver
  refine Attempt.SucceedsIf.bind_true (.engine fun _ => Iff.rfl) fun image => ?_
  refine Attempt.SucceedsIf.bind_true (.engine fun _ => Iff.rfl) fun handle => ?_
  refine (Yields.bind (.lift (yields_exit handle _ _)) ?_ ?_).congr (and_self_iff)
  · rintro (message | outcome) hbad
    · exact .done (by simp)
    · refine .ask fun reply => ?_
      rcases outcome with message | (exitCode : Int)
      · exact .done (by simp)
      · have hne : exitCode ≠ 0 := by
          rintro rfl
          exact hbad ⟨_, rfl, rfl⟩
        show Yields _ _ _ (ExceptT.run (if exitCode ≠ 0 then _ else _))
        rw [if_pos hne]
        exact .done (by simp)
  · rintro _ ⟨_, rfl, rfl⟩
    refine .ask fun reply => .done ?_
    simp [Step.GoesWell]

theorem succeedsIf_initialiseCaches (w : Worker) : w.initialiseCaches.SucceedsIf .initialiseCaches
    (∃ caches, Cache.resolve w.graph w.caches = .ok caches) := by
  have hprepare : w.prepareCaches.SucceedsIf .initialiseCaches
      (∃ caches, Cache.resolve w.graph w.caches = .ok caches) := by
    unfold prepareCaches
    split
    · next conflict hconflict => exact (Attempt.SucceedsIf.throw _).congr (by simp [hconflict])
    · next caches hcaches =>
      refine (Attempt.SucceedsIf.bind (succeedsIf_createCacheDirectories _) fun _ => ?_).congr
        (iff_of_true ⟨trivial, trivial⟩ ⟨caches, hcaches⟩)
      split
      · exact .pure ()
      · exact w.succeedsIf_handOver _
  refine (SucceedsIf.bind hprepare ?_ ?_).congr (iff_of_eq (and_true _))
  · rintro (message | _) hbad
    · exact .failure (.caches _) not_false
    · exact absurd ⟨_, rfl⟩ hbad
  · rintro _ ⟨_, rfl⟩
    exact .success .caches trivial

/-! ### Images -/

theorem succeedsIf_buildImage {c : String} {k : Container} {tags : List String} {directory : Path}
    {dockerfile : String} {arguments : NameMap String} (hk : w.graph.container? c = some k)
    (hbuild : k.image = .build directory dockerfile arguments) :
    (w.buildImage c tags).SucceedsIf (.buildImage c tags) True := by
  unfold buildImage
  rw [hk, Option.map_some, hbuild]
  refine .ask ?_
  rintro (e | image)
  · exact .failure (.built ..) (by simp [Step.goesWell_error])
  · exact .success (.built ..) ⟨trivial, image, rfl⟩

theorem succeedsIf_pullImage (reference : String) :
    (pullImage reference).SucceedsIf (.pullImage reference) True := by
  refine .ask ?_
  rintro (e | image)
  · exact .failure (.pulled ..) (by simp [Step.goesWell_error])
  · exact .success (.pulled ..) ⟨trivial, image, rfl⟩

/-! ### Containers -/

/-- A container is given a command if what is set for it can be split into words. -/
theorem exists_containerCommand_iff (w : Worker) (c : Container) :
    (∃ command, w.containerCommand c = .ok command) ↔
      ∀ command ∈ (w.configuredCommand? c).toList, ∃ words, Command.words command = .ok words := by
  unfold containerCommand configuredCommand?
  dsimp only
  split
  · next hnone =>
    rw [hnone]
    simp
  · next command hsome =>
    rw [hsome]
    cases hwords : Command.words command <;> simp [hwords]

theorem succeedsIf_userMounts (w : Worker) (step : Step) (c home : String) :
    (w.userMounts c home).SucceedsIf step True := by
  have hwrite : ∀ path contents, (writeTemporaryFile c path contents).SucceedsIf step True := by
    intro path contents
    exact Attempt.SucceedsIf.bind_true (.files _ _) fun _ => .tell _
  refine Attempt.SucceedsIf.bind_true (hwrite _ _) fun _ => ?_
  refine Attempt.SucceedsIf.bind_true (hwrite _ _) fun _ => ?_
  refine Attempt.SucceedsIf.bind_true (.files _ _) fun _ => ?_
  exact Attempt.SucceedsIf.bind_true (.tell _) fun _ => .pure _

theorem succeedsIf_creationRequest (w : Worker) (step : Step) (c : Container) (image : Image)
    (network : Network) : (w.creationRequest c image network).SucceedsIf step
      (∃ command, w.containerCommand c = .ok command) := by
  have hcommand : Attempt.SucceedsIf step (∃ command, w.containerCommand c = .ok command)
      (ExceptT.mk (.done (w.containerCommand c))) := .of_done _
  unfold creationRequest
  dsimp only
  split
  · refine Attempt.SucceedsIf.bind_true (.pure []) fun _ => ?_
    exact (hcommand.bind fun _ => .pure _).congr (iff_of_eq (and_true _))
  · refine Attempt.SucceedsIf.bind_true (w.succeedsIf_userMounts _ _ _) fun _ => ?_
    exact (hcommand.bind fun _ => .pure _).congr (iff_of_eq (and_true _))

theorem succeedsIf_createContainer {c : String} {k : Container} (image : Image) (network : Network)
    (hk : w.graph.container? c = some k) :
    (w.createContainer c image network).SucceedsIf (.createContainer c image network)
      (∃ command, w.containerCommand k = .ok command) := by
  unfold createContainer
  rw [hk]
  refine (SucceedsIf.bind (w.succeedsIf_creationRequest _ k image network) ?_ ?_).congr
    (iff_of_eq (and_true _))
  · rintro (message | request) hbad
    · exact .failure (.created ..) not_false
    · exact absurd ⟨_, rfl⟩ hbad
  · rintro _ ⟨request, rfl⟩
    refine .ask ?_
    rintro (e | handle)
    · exact .failure (.created ..) (by simp [Step.goesWell_error])
    · exact .success (.created ..) ⟨trivial, handle, rfl⟩

/-! ### Readiness -/

theorem yields_healthProblem? (c : String) (handle : Handle) :
    (healthProblem? handle).Yields (.awaitHealth c handle) (· = none) True := by
  unfold healthProblem?
  refine .ask ?_
  rintro (e | (inspection : Inspection))
  · exact .done (by simp [Step.goesWell_error])
  have hinspected : (Step.awaitHealth c handle).GoesWell
      (.answered (.inspect handle) (.ok inspection)) := ⟨inspection, rfl⟩
  show Yields _ _ _ (if _ then _ else _)
  split
  · exact .done (by simp [hinspected])
  · refine .ask ?_
    rintro (e | _ | _ | _)
    · exact .done (by simp [Step.goesWell_error])
    · exact .done (iff_of_true rfl ⟨⟨trivial, hinspected⟩, rfl⟩)
    · refine .ask ?_
      rintro (e | (inspection : Inspection))
      · exact .done (by simp [Step.goesWell_error])
      · exact .done (iff_of_false nofun fun h =>
          nomatch (show HealthEvent.unhealthy = .healthy from h.1.2))
    · exact .done (iff_of_false nofun fun h =>
        nomatch (show HealthEvent.died = .healthy from h.2))

theorem succeedsIf_awaitHealth (c : String) (handle : Handle) :
    (awaitHealth c handle).SucceedsIf (.awaitHealth c handle) True := by
  refine (SucceedsIf.bind (yields_healthProblem? c handle) ?_ ?_).congr (and_self_iff)
  · rintro (_ | message) hbad
    · exact absurd rfl hbad
    · exact .failure (.healthy ..) not_false
  · rintro _ rfl
    exact .success (.healthy ..) trivial

theorem succeedsIf_runSetup (w : Worker) (k : Container) (handle : Handle) (index : Nat)
    (commands : List SetupCommand) :
    (w.runSetup k handle index commands).SucceedsIf (.runSetupCommands k.name handle)
      (∀ setup ∈ commands, ∃ words, Command.words setup.command = .ok words) := by
  induction commands generalizing index with
  | nil => exact .success (.ready ..) (by simp)
  | cons setup rest ih =>
    unfold runSetup
    refine .post ?_
    rw [List.forall_mem_cons]
    cases hwords : Command.words setup.command with
    | error unfinished => exact .failure (.setupNotRun ..) (by simp)
    | ok words =>
      refine .ask ?_
      rintro (e | (result : ExecResult))
      · exact .failure (.setupNotRun ..) (by simp [Step.goesWell_error])
      · have hwell : (Step.runSetupCommands k.name handle).GoesWell (.answered
            (.exec (w.setupRequest k handle setup words)) (.ok result)) ↔ result.exitCode = 0 :=
          Iff.rfl
        show SucceedsIf _ _ (if _ then _ else _)
        split
        · next hzero => exact (ih _).congr (by simp [hwell, hzero])
        · next hnonzero => exact .failure (.setupFailed ..) (by simp [hwell, hnonzero])

/-! ### Any step -/

/-- **A step succeeds exactly if its settings let it and everything goes well.** -/
theorem succeedsIf_perform (hg : w.graph.WellFormed) (hfits : step.FitsIn w.graph) :
    (w.perform step).SucceedsIf step (w.Prepared step) := by
  have hready : w.commandsOf step = [] → step ≠ .initialiseCaches → (True ↔ w.Prepared step) := by
    intro hnone hother
    refine iff_of_true trivial ⟨?_, fun h => absurd h hother⟩
    simp [hnone]
  cases step with
  | createNetwork =>
    refine SucceedsIf.congr ?_ (hready rfl nofun)
    exact succeedsIf_told .network .network fun _ => Iff.rfl
  | initialiseCaches =>
    refine w.succeedsIf_initialiseCaches.congr ⟨fun h => ⟨by simp [commandsOf], fun _ => h⟩, ?_⟩
    exact fun h => h.caches rfl
  | buildImage c tags =>
    obtain ⟨k, hk, hbuild⟩ := hfits c rfl
    obtain ⟨directory, dockerfile, arguments, himage⟩ := hbuild tags rfl
    exact (succeedsIf_buildImage hk himage).congr (hready rfl nofun)
  | pullImage reference => exact (succeedsIf_pullImage reference).congr (hready rfl nofun)
  | createContainer c image network =>
    obtain ⟨k, hk, -⟩ := hfits c rfl
    have hcommands : w.commandsOf (.createContainer c image network) =
        (w.configuredCommand? k).toList := by
      simp [commandsOf, hk]
    refine (succeedsIf_createContainer image network hk).congr ?_
    rw [exists_containerCommand_iff, ← hcommands]
    exact ⟨fun h => ⟨h, nofun⟩, fun h => h.commands⟩
  | startContainer c handle =>
    refine SucceedsIf.congr ?_ (hready rfl nofun)
    exact succeedsIf_told (fun _ => .started ..) (.started _ _) fun _ => Iff.rfl
  | awaitHealth c handle => exact (succeedsIf_awaitHealth c handle).congr (hready rfl nofun)
  | runSetupCommands c handle =>
    obtain ⟨k, hk, -⟩ := hfits c rfl
    obtain rfl : k.name = c := Graph.name_of_container? hg hk
    have hcommands : w.commandsOf (.runSetupCommands k.name handle) =
        k.setupCommands.map (·.command) := by
      simp [commandsOf, hk]
    have hperform : w.perform (.runSetupCommands k.name handle) =
        w.runSetup k handle 0 k.setupCommands := by
      show w.runSetupCommands k.name handle = _
      rw [runSetupCommands, hk]
    rw [hperform]
    refine (w.succeedsIf_runSetup k handle 0 k.setupCommands).congr ?_
    constructor
    · intro h
      exact ⟨by rw [hcommands]; exact List.forall_mem_map.2 h, nofun⟩
    · intro h setup hsetup
      exact h.commands _ (by rw [hcommands]; exact List.mem_map_of_mem hsetup)
  | runContainer c handle =>
    refine SucceedsIf.congr ?_ (hready rfl nofun)
    refine succeedsIf_told (.exited _ _) (.exited _ _) ?_
    -- With which code the main container exits does not matter here.
    rintro (e | exitCode)
    · exact Iff.rfl
    · exact iff_of_true nofun ⟨exitCode, rfl⟩
  | stopContainer c handle =>
    refine SucceedsIf.congr ?_ (hready rfl nofun)
    exact succeedsIf_told (fun _ => .stopped ..) (.stopped _ _) fun _ => Iff.rfl
  | removeContainer c handle =>
    refine SucceedsIf.congr ?_ (hready rfl nofun)
    refine succeedsIf_told (fun _ => .removed ..) (.removed _ _) fun reply => ?_
    exact or_iff_right nofun
  | deleteFile path =>
    refine SucceedsIf.congr ?_ (hready rfl nofun)
    exact succeedsIf_toldChange (.fileDeleted _) (.fileDeleted _)
  | deleteDirectory path =>
    refine SucceedsIf.congr ?_ (hready rfl nofun)
    exact succeedsIf_toldChange (.directoryDeleted _) (.directoryDeleted _)
  | deleteNetwork network =>
    refine SucceedsIf.congr ?_ (hready rfl nofun)
    exact succeedsIf_told (fun _ => .networkDeleted ..) (.networkDeleted _) fun _ => Iff.rfl

/-! ### What a step returns -/

variable {history : List Deed}

/-- If a call is followed by an event that tells of its answer, and by another one if it has failed,
then what is told last was answered. -/
theorem answered_of_ask {call : EngineCall} {announce : Progress → Option Event}
    {next : Reply call → Program Unit} {success : call.Answer → Event}
    {failure : EngineError → Event} {e : Event} (h : (ask call announce next).Through history ())
    (hok : ∀ answer, next (.ok answer) = tell (success answer))
    (herror : ∀ error, next (.error error) = tell (failure error))
    (hlast : history.getLast? = some (.posted e)) :
    (∃ answer, e = success answer ∧ .answered call (.ok answer) ∈ history) ∨
      ∃ error, e = failure error := by
  obtain ⟨events, reply, rest, rfl, -, hrest⟩ := through_ask.1 h
  have hended : ∀ {told : Event}, (tell told).Through rest () → e = told := by
    intro told htold
    obtain rfl := through_tell.1 htold
    simpa [List.getLast?_cons, List.getLast?_append, eq_comm] using hlast
  cases reply with
  | error error => exact .inr ⟨error, hended (herror error ▸ hrest)⟩
  | ok answer => exact .inl ⟨answer, hended (hok answer ▸ hrest), by simp⟩

/-- **What a step tells when it has succeeded is what the engine has returned.** -/
theorem returns_of_through (hg : w.graph.WellFormed) (h : (w.perform step).Through history ())
    {e : Event} (hlast : history.getLast? = some (.posted e)) (hs : step.Succeeds e) :
    step.Returns history e := by
  have hmem : .posted e ∈ history := List.mem_of_getLast? hlast
  cases hs with
  | network network => exact (network_perform hg h).2 hmem
  | built c tags image =>
    have hbuild : (w.buildImage c tags).Through history () := h
    unfold buildImage at hbuild
    split at hbuild
    · obtain ⟨answer, heq, hanswered⟩ | ⟨error, heq⟩ :=
        answered_of_ask hbuild (fun _ => rfl) (fun _ => rfl) hlast
      · rw [(Event.imageBuilt.inj heq).2]
        exact ⟨_, hanswered⟩
      · nomatch heq
    · obtain rfl := through_tell.1 hbuild
      simp at hlast
  | pulled reference image =>
    obtain ⟨answer, heq, hanswered⟩ | ⟨error, heq⟩ :=
      answered_of_ask h (fun _ => rfl) (fun _ => rfl) hlast
    · rw [(Event.imagePulled.inj heq).2]
      exact hanswered
    · nomatch heq
  | created c image network handle =>
    rcases through_createContainer hg h with hcalm | ⟨before, request, other, hcalm, -, rfl⟩
    · have hnone := hcalm _ hmem
      simp [Deed.Calm, Event.milestone?] at hnone
    · have heq : Event.containerCreated c other = .containerCreated c handle := by
        simpa [List.getLast?_append] using hlast
      rw [← (Event.containerCreated.inj heq).2]
      exact ⟨request, by simp⟩
  | exited c handle exitCode =>
    obtain ⟨other, heq, hanswered⟩ := answered_of_exited hg h hmem
    rw [(Step.runContainer.inj heq).2]
    exact hanswered
  | _ => trivial

/-! ### Running a step -/

section Running

variable {α σ β : Type} {env : Surroundings σ} {recalled : Deed → Option β} {memory : σ → List β}
  (ha : env.Answers) (hr : env.Remembers recalled memory)

include ha hr

/-- With an engine that answers, no program gets stuck as long as the run can be interrupted. -/
theorem not_stuck_of_advance (p : Program α) (s : Situation σ) :
    (env.advance .run p s).2 ≠ .ended .stuck := by
  induction p generalizing s with
  | done result =>
    intro h
    cases h
  | post e next ih => exact ih _
  | change request next ih => exact ih _ _
  | ask call announce next ih =>
    unfold Surroundings.advance
    cases hask : env.askIn .run call announce s with
    | mk response s₁ =>
      obtain ⟨-, reply, -, -, rfl | ⟨rfl, -⟩⟩ := Situation.Gains.askIn ha hr hask
      · exact ih reply s₁
      · dsimp only
        split
        · exact ih _ s₁
        · intro h
          cases h

/-- A step that is run by itself comes to its end, if it has to by being interrupted. -/
theorem exists_history_of_runStep (w : Worker) (step : Step) (world : σ) : ∃ history,
    (w.perform step).Through history () ∧
      (w.runStep env step world).1 = (eventsOf history, .finished) ∧
      memory (w.runStep env step world).2 = memory world ++ history.filterMap recalled := by
  unfold runStep
  cases hstart : w.start env .run step ⟨world, []⟩ with
  | mk s pause =>
    have hpause : pause ≠ .ended .stuck := by
      have hnot := not_stuck_of_advance ha hr (w.perform step) ⟨world, []⟩
      rwa [show env.advance .run (w.perform step) ⟨world, []⟩ = (s, pause) from hstart] at hnot
    obtain ⟨history, hgains, hend⟩ :=
      pausesAt_of_advance ha hr .run (w.perform step) hstart hpause
    cases hend with
    | ended through =>
      exact ⟨history, through, congrArg (·, Ending.finished) hgains.log, hgains.memory⟩
    | @waiting call announce next goes =>
      obtain ⟨rest, _, hfinished, hthrough, hrest⟩ := through_of_finish ha hr
        (next (.error .cancelled)) { s with world := env.whenIdle s.world }
      refine ⟨history ++ .answered call (.error .cancelled) :: rest,
        goes.append (.head (.answer _) hthrough), ?_, ?_⟩
      · dsimp only
        rw [hfinished, hrest.log, hgains.log, eventsOf_append]
        rfl
      · dsimp only
        rw [hrest.memory, hr.idle, hgains.memory, List.filterMap_append,
          List.filterMap_cons_none (hr.cancelled call), List.append_assoc]

end Running

/-- A step that has come to its end has kept to its contract. -/
theorem contract_of_through (hg : w.graph.WellFormed) (hfits : step.FitsIn w.graph)
    (h : (w.perform step).Through history ()) :
    ∃ before last, w.Contract step history before last := by
  obtain ⟨before, last, hevents, hlast, hall, hends⟩ := (tells_perform hg step).through h
  obtain ⟨last', hlast', hiff⟩ := succeedsIf_perform hg hfits history h
  obtain rfl : last' = last := by
    rw [hlast] at hlast'
    simpa [eq_comm] using hlast'
  exact ⟨before, last', hevents, hlast, fun e he => ⟨hall e he, fun _ => (hall e he).not_endsWith⟩,
    hends, fun hs => returns_of_through hg h hlast hs, hiff⟩

/-- **Every step keeps to its contract**, whatever the engine replies, however often it tells of its
progress, and whatever becomes of the files: it posts one event that ends it, as the last one, and
before that only how far it has come; it succeeds exactly if nothing that matters to it went wrong,
and tells then what the engine has returned. With an engine that answers, every step comes to such
an end. -/
theorem keeps_contract {project : Project} {task : String}
    (hresolve : Graph.resolve project task = .ok w.graph) (hfits : step.FitsIn w.graph) :
    (∀ history, (w.perform step).Through history () →
      ∃ before last, w.Contract step history before last) ∧
    ∀ {σ β : Type} {env : Surroundings σ} {recalled : Deed → Option β} {memory : σ → List β},
      env.Answers → env.Remembers recalled memory → ∀ world, ∃ history before last,
        (w.perform step).Through history () ∧ w.Contract step history before last ∧
        (w.runStep env step world).1 = (before ++ [last], .finished) ∧
        memory (w.runStep env step world).2 = memory world ++ history.filterMap recalled := by
  have hg := Graph.wellFormed_of_resolve hresolve
  refine ⟨fun _ h => contract_of_through hg hfits h, ?_⟩
  intro σ β env recalled memory ha hr world
  obtain ⟨history, hthrough, hrun, hmemory⟩ := exists_history_of_runStep ha hr w step world
  obtain ⟨before, last, hcontract⟩ := contract_of_through hg hfits hthrough
  refine ⟨history, before, last, hthrough, hcontract, ?_, hmemory⟩
  rw [hrun, hcontract.events]

end Worker

/-! ## A step to look at -/

namespace Workshop

/-- The step that makes the bench. -/
def making : Step := .createContainer "bench" ⟨"wood"⟩ ⟨"network"⟩

theorem making_fitsIn : making.FitsIn machine.graph := by
  rintro _ ⟨⟩
  refine ⟨(machine.graph.container? "bench").get (by decide +kernel), by simp, ?_⟩
  rintro tags ⟨⟩

/-- The files of the joiner are made for the bench, and then the bench. -/
theorem bench_is_made : ∃ history,
    (Worker.forTask project host machine).Contract making history
      [.fileCreated "bench" ⟨"/tmp/dockhand-workshop-bench-1-passwd"⟩,
       .fileCreated "bench" ⟨"/tmp/dockhand-workshop-bench-1-group"⟩,
       .directoryCreated "bench" ⟨"/tmp/dockhand-workshop-bench-1-home"⟩]
      (.containerCreated "bench" ⟨"0", "workshop-bench-1"⟩) ∧
    (history.filterMap Deed.success?).length = 1 := by
  obtain ⟨-, hruns⟩ := Worker.keeps_contract (w := .forTask project host machine)
    resolve_project making_fitsIn
  obtain ⟨history, before, last, -, hcontract, hrun, hmemory⟩ :=
    hruns (Obliging.answers fun _ => false) (Obliging.remembers fun _ => false) []
  have hevents : ((Worker.forTask project host machine).runStep
      (Obliging.surroundings fun _ => false) making []).1 =
      ([.fileCreated "bench" ⟨"/tmp/dockhand-workshop-bench-1-passwd"⟩,
        .fileCreated "bench" ⟨"/tmp/dockhand-workshop-bench-1-group"⟩,
        .directoryCreated "bench" ⟨"/tmp/dockhand-workshop-bench-1-home"⟩] ++
        [.containerCreated "bench" ⟨"0", "workshop-bench-1"⟩], .finished) := by
    decide +kernel
  have hcalls : ((Worker.forTask project host machine).runStep
      (Obliging.surroundings fun _ => false) making []).2.length = 1 := by
    decide +kernel
  obtain ⟨rfl, hlast⟩ := List.append_inj' (Prod.mk.inj (hrun.symm.trans hevents)).1 rfl
  obtain rfl := List.singleton_inj.1 hlast
  refine ⟨history, hcontract, ?_⟩
  rw [← hcalls]
  exact (congrArg List.length hmemory).symm

end Workshop

end Stevedore
