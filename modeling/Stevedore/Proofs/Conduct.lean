import Stevedore.Proofs.History
import Stevedore.Proofs.Milestone
import Stevedore.Proofs.Planning
import Stevedore.Work.Perform

/-!
How steps conduct themselves when they are carried out.

Each step asks the engine for few things only (`Step.MayAsk`), posts how far it has come, and at
last posts one event that says how it ended; after that it does nothing (`Program.Tells`). This is
what a run expects of its steps, and here it is shown of the programs that carry them out
(`tells_perform`), whatever the engine replies and whatever becomes of the files.
-/

namespace Stevedore

/-- What a step may ask the engine for. -/
def Step.MayAsk : Step → EngineCall → Prop
  | createNetwork, .createNetwork .. => True
  | initialiseCaches, .pullImage .. | initialiseCaches, .createContainer _
  | initialiseCaches, .startContainer _ | initialiseCaches, .waitForExit _
  | initialiseCaches, .removeContainer _ => True
  | buildImage .., .buildImage _ => True
  | pullImage _, .pullImage .. => True
  | createContainer .., .createContainer _ => True
  | startContainer _ handle, .startContainer container
  | awaitHealth _ handle, .inspect container
  | awaitHealth _ handle, .waitForEvent container _
  | runContainer _ handle, .waitForExit container
  | stopContainer _ handle, .stopContainer container
  | removeContainer _ handle, .removeContainer container => container = handle
  | runSetupCommands _ handle, .exec request => request.container = handle
  | deleteNetwork network, .deleteNetwork other => other = network
  | _, _ => False

theorem Graph.name_of_container? {g : Graph} (hg : g.WellFormed) {c : String} {k : Container}
    (h : g.container? c = some k) : k.name = c := by
  obtain ⟨node, hnode, rfl⟩ := Option.map_eq_some_iff.1 h
  exact hg.named c node hnode

/-! ## Programs that stay within limits -/

namespace Program

variable {α β : Type} {mayPost mayPost' : Event → Prop} {mayAsk mayAsk' : EngineCall → Prop}

/-- Whether the program posts and asks only what it may. -/
inductive Within (mayPost : Event → Prop) (mayAsk : EngineCall → Prop) {α : Type} :
    Program α → Prop
  | done (a : α) : Within mayPost mayAsk (done a)
  | post {e : Event} {next : Program α} (may : mayPost e) (rest : Within mayPost mayAsk next) :
      Within mayPost mayAsk (post e next)
  | ask {call : EngineCall} {announce : Progress → Option Event} {next : Reply call → Program α}
      (may : mayAsk call) (own : ∀ p e, announce p = some e → mayPost e)
      (rest : ∀ reply, Within mayPost mayAsk (next reply)) :
      Within mayPost mayAsk (ask call announce next)
  | change {request : FileChange} {next : Except FileError Unit → Program α}
      (rest : ∀ result, Within mayPost mayAsk (next result)) :
      Within mayPost mayAsk (change request next)

/-- The rest of a program need only stay within limits for what the first part may come to. -/
theorem Within.bind_through {p : Program α} {f : α → Program β} (hp : p.Within mayPost mayAsk)
    (hf : ∀ history a, p.Through history a → (f a).Within mayPost mayAsk) :
    (p >>= f).Within mayPost mayAsk := by
  induction hp with
  | done a => exact hf [] a (through_done.2 ⟨rfl, rfl⟩)
  | post may _ ih =>
    exact .post may (ih fun history a h => hf _ a (through_post.2 ⟨history, rfl, h⟩))
  | ask may own _ ih =>
    refine .ask may own fun reply => ih reply fun history a h => ?_
    exact hf _ a (through_ask.2 ⟨[], reply, history, rfl, nofun, h⟩)
  | change _ ih =>
    refine .change fun result => ih result fun history a h => ?_
    exact hf _ a (through_change.2 ⟨result, history, rfl, h⟩)

theorem Within.bind {p : Program α} {f : α → Program β} (hp : p.Within mayPost mayAsk)
    (hf : ∀ a, (f a).Within mayPost mayAsk) : (p >>= f).Within mayPost mayAsk :=
  hp.bind_through fun _ a _ => hf a

theorem Within.mono {p : Program α} (hp : p.Within mayPost mayAsk)
    (hpost : ∀ e, mayPost e → mayPost' e) (hask : ∀ call, mayAsk call → mayAsk' call) :
    p.Within mayPost' mayAsk' := by
  induction hp with
  | done a => exact .done a
  | post may _ ih => exact .post (hpost _ may) ih
  | ask may own _ ih => exact .ask (hask _ may) (fun p e h => hpost e (own p e h)) ih
  | change _ ih => exact .change ih

theorem Within.tell {e : Event} (h : mayPost e) : (tell e).Within mayPost mayAsk :=
  .post h (.done ())

theorem Within.quietly {c : EngineCall} (h : mayAsk c) : (quietly c).Within mayPost mayAsk :=
  .ask h nofun .done

theorem Within.attempt_bind {x : Attempt α} {f : α → Attempt β} (hx : x.run.Within mayPost mayAsk)
    (hf : ∀ a, (f a).run.Within mayPost mayAsk) : (x >>= f).run.Within mayPost mayAsk := by
  refine hx.bind ?_
  rintro (message | a)
  · exact .done _
  · exact hf a

theorem Within.engine {context : String} {c : EngineCall} (h : mayAsk c) :
    (Attempt.engine context c).run.Within mayPost mayAsk := by
  refine (Within.quietly h).bind ?_
  rintro (e | a)
  · exact .done _
  · exact .done _

theorem Within.files (context : String) (request : FileChange) :
    (Attempt.files context request).run.Within mayPost mayAsk := by
  refine .change ?_
  rintro (e | _)
  · exact .done _
  · exact .done _

theorem Within.attempt_lift {p : Program α} (h : p.Within mayPost mayAsk) :
    (ExceptT.lift p : Attempt α).run.Within mayPost mayAsk :=
  h.bind fun _ => .done _

theorem Within.attempt_tell {e : Event} (h : mayPost e) :
    (Attempt.tell e).run.Within mayPost mayAsk :=
  .post h (.done _)

/-- Whether the program asks only what the step may, tells how far the step has come, and ends when
it tells how the step ended. -/
inductive Tells (step : Step) : Program Unit → Prop
  | last {e : Event} (own : step.EndsWith e) : Tells step (.post e (.done ()))
  | post {e : Event} {next : Program Unit} (own : step.Reports e) (rest : Tells step next) :
      Tells step (.post e next)
  | ask {call : EngineCall} {announce : Progress → Option Event}
      {next : Reply call → Program Unit} (may : step.MayAsk call)
      (own : ∀ p e, announce p = some e → step.Reports e)
      (rest : ∀ reply, Tells step (next reply)) : Tells step (.ask call announce next)
  | change {request : FileChange} {next : Except FileError Unit → Program Unit}
      (rest : ∀ result, Tells step (next result)) : Tells step (.change request next)

variable {step : Step}

/-- What tells of a step posts and asks only what fits the step. -/
theorem Tells.within {p : Program Unit} (h : p.Tells step) :
    p.Within (fun e => step.Reports e ∨ step.EndsWith e) step.MayAsk := by
  induction h with
  | last own => exact .post (.inr own) (.done ())
  | post own _ ih => exact .post (.inl own) ih
  | ask may own _ ih => exact .ask may (fun p e h => .inl (own p e h)) ih
  | change _ ih => exact .change ih

theorem Tells.succeed {e : Event} (h : step.Succeeds e) : (tell e).Tells step := .last (.inl h)

theorem Tells.fail {e : Event} (h : step.Fails e) : (tell e).Tells step := .last (.inr h)

theorem Tells.bind {p : Program α} {f : α → Program Unit} (hp : p.Within step.Reports step.MayAsk)
    (hf : ∀ a, (f a).Tells step) : (p >>= f).Tells step := by
  induction hp with
  | done a => exact hf a
  | post may _ ih => exact .post may ih
  | ask may own _ ih => exact .ask may own ih
  | change _ ih => exact .change ih

end Program

/-! ## What programs within limits do -/

/-- Whether the deed posts and asks only what may be posted and asked. -/
def Deed.Within (mayPost : Event → Prop) (mayAsk : EngineCall → Prop) : Deed → Prop
  | posted e => mayPost e
  | asked call | answered call _ => mayAsk call
  | changed .. => True

namespace Errand

variable {α : Type} {mayPost : Event → Prop} {mayAsk : EngineCall → Prop} {step : Step} {d : Deed}
  {history : List Deed}

/-- Whether the errand posts and asks only what it may. -/
def Within (mayPost : Event → Prop) (mayAsk : EngineCall → Prop) : Errand α → Prop
  | free p => p.Within mayPost mayAsk
  | pending call announce next => mayAsk call ∧ (∀ p e, announce p = some e → mayPost e) ∧
      ∀ reply, (next reply).Within mayPost mayAsk

theorem Does.within {t u : Errand α} (h : t.Does d u) (ht : t.Within mayPost mayAsk) :
    d.Within mayPost mayAsk ∧ u.Within mayPost mayAsk := by
  cases h with
  | post =>
    cases ht with
    | post may rest => exact ⟨may, rest⟩
  | ask =>
    cases ht with
    | ask may own rest => exact ⟨may, may, own, rest⟩
  | progress told => exact ⟨ht.2.1 _ _ told, ht⟩
  | answer reply => exact ⟨ht.1, ht.2.2 reply⟩
  | change result =>
    cases ht with
    | change rest => exact ⟨trivial, rest result⟩

theorem Goes.within {t u : Errand α} (h : t.Goes history u) (ht : t.Within mayPost mayAsk) :
    ∀ d ∈ history, d.Within mayPost mayAsk := by
  induction h with
  | refl => simp
  | head first _ ih =>
    obtain ⟨hd, hu⟩ := first.within ht
    exact List.forall_mem_cons.2 ⟨hd, ih hu⟩

/-- Whether the errand tells how far the step has come, and at last how it ended. -/
def Tells (step : Step) : Errand Unit → Prop
  | free p => p.Tells step
  | pending call announce next => step.MayAsk call ∧
      (∀ p e, announce p = some e → step.Reports e) ∧ ∀ reply, (next reply).Tells step

theorem Tells.not_isDone {t : Errand Unit} (h : t.Tells step) : t.isDone = false := by
  unfold isDone
  split
  · cases h
  · rfl

/-- Until a step tells how it ended it has not ended, and then it has. -/
theorem Does.tells {t u : Errand Unit} (h : t.Does d u) (ht : t.Tells step) :
    u.Tells step ∧ (∀ e, d = .posted e → step.Reports e) ∨
      u = free (.done ()) ∧ ∃ e, d = .posted e ∧ step.EndsWith e := by
  cases h with
  | post =>
    cases ht with
    | last own => exact .inr ⟨rfl, _, rfl, own⟩
    | post own rest =>
      refine .inl ⟨rest, ?_⟩
      rintro e ⟨⟩
      exact own
  | ask =>
    cases ht with
    | ask may own rest => exact .inl ⟨⟨may, own, rest⟩, nofun⟩
  | progress told =>
    refine .inl ⟨ht, ?_⟩
    rintro e ⟨⟩
    exact ht.2.1 _ _ told
  | answer reply => exact .inl ⟨ht.2.2 reply, nofun⟩
  | change result =>
    cases ht with
    | change rest => exact .inl ⟨rest result, nofun⟩

theorem Goes.tells {t u : Errand Unit} (h : t.Goes history u) (ht : t.Tells step) :
    u.Tells step ∨ u = free (.done ()) := by
  induction h with
  | refl => exact .inl ht
  | head first rest ih =>
    rcases first.tells ht with ⟨hu, -⟩ | ⟨rfl, -⟩
    · exact ih hu
    · cases rest with
      | refl => exact .inr rfl
      | head second => cases second

end Errand

/-! ## The programs of the steps -/

namespace Worker

open Program

variable {w : Worker} {step : Step}

theorem tells_told {call : EngineCall} {success : call.Answer → Event} {failure : String → Event}
    (may : step.MayAsk call) (hs : ∀ answer, step.Succeeds (success answer))
    (hf : ∀ message, step.Fails (failure message)) : (told call success failure).Tells step := by
  refine .ask may nofun ?_
  rintro (e | answer)
  · exact .fail (hf _)
  · exact .succeed (hs answer)

theorem tells_toldChange {request : FileChange} {success : Event} {failure : String → Event}
    (hs : step.Succeeds success) (hf : ∀ message, step.Fails (failure message)) :
    (toldChange request success failure).Tells step := by
  refine .change ?_
  rintro (e | _)
  · exact .fail (hf _)
  · exact .succeed hs

theorem within_createCacheDirectories {mayPost : Event → Prop} {mayAsk : EngineCall → Prop}
    (caches : List Cache) : (createCacheDirectories caches).run.Within mayPost mayAsk := by
  induction caches with
  | nil => exact .done _
  | cons cache rest ih =>
    unfold createCacheDirectories
    split
    · exact (Within.files _ _).attempt_bind fun _ => ih
    · exact ih

/-- What is asked to hand caches over. -/
inductive HandsOver (w : Worker) : EngineCall → Prop
  | pull : HandsOver w (.pullImage cacheInitImage false)
  | create (image : Image) (volumes : List String) :
      HandsOver w (.createContainer (w.handOverRequest image volumes))
  | start (handle : Handle) : HandsOver w (.startContainer handle)
  | await (handle : Handle) : HandsOver w (.waitForExit handle)
  | remove (handle : Handle) : HandsOver w (.removeContainer handle)

theorem HandsOver.mayAsk {call : EngineCall} (h : w.HandsOver call) :
    Step.initialiseCaches.MayAsk call := by
  cases h <;> trivial

/-- Volumes are handed over with few calls, and one of them is for a container that mounts them. -/
theorem within_handOver_of {mayPost : Event → Prop} {mayAsk : EngineCall → Prop}
    (volumes : List String) (hpull : mayAsk (.pullImage cacheInitImage false))
    (hcreate : ∀ image, mayAsk (.createContainer (w.handOverRequest image volumes)))
    (hstart : ∀ handle, mayAsk (.startContainer handle))
    (hawait : ∀ handle, mayAsk (.waitForExit handle))
    (hremove : ∀ handle, mayAsk (.removeContainer handle)) :
    (w.handOver volumes).run.Within mayPost mayAsk := by
  unfold handOver
  refine (Within.engine hpull).attempt_bind fun image => ?_
  refine (Within.engine (hcreate image)).attempt_bind fun handle => ?_
  refine Within.attempt_bind (.attempt_lift ?_) fun outcome => ?_
  · exact (Within.engine (hstart handle)).attempt_bind fun _ => .engine (hawait handle)
  · refine Within.attempt_bind (.attempt_lift (.quietly (hremove handle))) fun _ => ?_
    refine Within.attempt_bind (.done _) fun exitCode => ?_
    split
    · exact .done _
    · exact .done _

/-- Making the caches ready posts nothing before it ends, and asks for what hands them over. -/
theorem within_prepareCaches_of {mayPost : Event → Prop} {mayAsk : EngineCall → Prop}
    (hhandOver : ∀ caches, Cache.resolve w.graph w.caches = .ok caches →
      (w.handOver (caches.values.filterMap volumeToHandOver?)).run.Within mayPost mayAsk) :
    w.prepareCaches.run.Within mayPost mayAsk := by
  unfold prepareCaches
  split
  · exact .done _
  · next caches hcaches =>
    refine (within_createCacheDirectories _).attempt_bind fun _ => ?_
    split
    · exact .done _
    · exact hhandOver caches hcaches

theorem within_prepareCaches (w : Worker) {mayPost : Event → Prop} :
    w.prepareCaches.run.Within mayPost w.HandsOver :=
  within_prepareCaches_of fun _ _ =>
    within_handOver_of _ .pull (fun image => .create image _) .start .await .remove

theorem tells_initialiseCaches (w : Worker) : w.initialiseCaches.Tells .initialiseCaches := by
  have hprepare : w.prepareCaches.run.Within Step.initialiseCaches.Reports w.HandsOver :=
    w.within_prepareCaches
  refine .bind (hprepare.mono (fun _ => id) fun _ => HandsOver.mayAsk) ?_
  rintro (message | _)
  · exact .fail (.caches _)
  · exact .succeed .caches

theorem tells_buildImage (w : Worker) (c : String) (tags : List String) :
    (w.buildImage c tags).Tells (.buildImage c tags) := by
  unfold buildImage
  split
  · refine .ask trivial ?_ ?_
    · rintro (progress | message) e h
      · obtain rfl := Option.some.inj h
        exact .building ..
      · simp at h
    · rintro (e | image)
      · exact .fail (.built ..)
      · exact .succeed (.built ..)
  · exact .fail (.built ..)

theorem tells_pullImage (reference : String) :
    (pullImage reference).Tells (.pullImage reference) := by
  refine .ask trivial ?_ ?_
  · rintro (progress | message) e h
    · simp at h
    · obtain rfl := Option.some.inj h
      exact .pulling ..
  · rintro (e | image)
    · exact .fail (.pulled ..)
    · exact .succeed (.pulled ..)

theorem within_userMounts (w : Worker) {mayAsk : EngineCall → Prop} (c home : String)
    (image : Image) (network : Network) :
    (w.userMounts c home).run.Within (Step.createContainer c image network).Reports mayAsk := by
  have hwrite : ∀ path contents, (writeTemporaryFile c path contents).run.Within
      (Step.createContainer c image network).Reports mayAsk := by
    intro path contents
    exact (Within.files _ _).attempt_bind fun _ => .attempt_tell (.file ..)
  refine (hwrite _ _).attempt_bind fun _ => ?_
  refine (hwrite _ _).attempt_bind fun _ => ?_
  refine (Within.files _ _).attempt_bind fun _ => ?_
  exact (Within.attempt_tell (.directory ..)).attempt_bind fun _ => .done _

/-- Preparing the creation of a container asks nothing. -/
theorem within_creationRequest (w : Worker) {mayAsk : EngineCall → Prop} (c : Container)
    (image : Image) (network : Network) : (w.creationRequest c image network).run.Within
      (Step.createContainer c.name image network).Reports mayAsk := by
  unfold creationRequest
  dsimp only
  split
  · exact (Within.done _).attempt_bind fun _ => (Within.done _).attempt_bind fun _ => .done _
  · exact (w.within_userMounts ..).attempt_bind fun _ =>
      (Within.done _).attempt_bind fun _ => .done _

theorem tells_createContainer (hg : w.graph.WellFormed) (c : String) (image : Image)
    (network : Network) : (w.createContainer c image network).Tells
      (.createContainer c image network) := by
  unfold createContainer
  split
  · exact .fail (.created ..)
  · next k hk =>
    obtain rfl : k.name = c := Graph.name_of_container? hg hk
    refine .bind (w.within_creationRequest k image network) ?_
    rintro (message | request)
    · exact .fail (.created ..)
    · refine .ask trivial nofun ?_
      rintro (e | handle)
      · exact .fail (.created ..)
      · exact .succeed (.created ..)

theorem tells_awaitHealth (c : String) (handle : Handle) :
    (awaitHealth c handle).Tells (.awaitHealth c handle) := by
  have hinspect : (Step.awaitHealth c handle).MayAsk (.inspect handle) := rfl
  have hwait : ∀ kinds, (Step.awaitHealth c handle).MayAsk (.waitForEvent handle kinds) :=
    fun _ => rfl
  refine .bind ?_ ?_
  · unfold healthProblem?
    refine (Within.quietly hinspect).bind ?_
    rintro (e | inspection)
    · exact .done _
    dsimp only
    split
    · exact .done _
    · refine (Within.quietly (hwait _)).bind ?_
      rintro (e | _ | _ | _)
      · exact .done _
      · exact .done _
      · refine (Within.quietly hinspect).bind ?_
        rintro (e | inspection)
        · exact .done _
        · exact .done _
      · exact .done _
  · rintro (_ | message)
    · exact .succeed (.healthy ..)
    · exact .fail (.healthy ..)

theorem tells_runSetup (w : Worker) (k : Container) (handle : Handle) (index : Nat)
    (commands : List SetupCommand) :
    (w.runSetup k handle index commands).Tells (.runSetupCommands k.name handle) := by
  induction commands generalizing index with
  | nil => exact .succeed (.ready ..)
  | cons setup rest ih =>
    unfold runSetup
    refine .bind (.tell (.setup ..)) fun _ => ?_
    split
    · exact .fail (.setupNotRun ..)
    · refine .ask rfl nofun ?_
      rintro (e | result)
      · exact .fail (.setupNotRun ..)
      · show Tells _ (if _ then _ else _)
        split
        · exact ih _
        · exact .fail (.setupFailed ..)

/-- **Each step tells how far it has come, and at last how it ended.** -/
theorem tells_perform (hg : w.graph.WellFormed) (step : Step) : (w.perform step).Tells step := by
  cases step with
  | createNetwork => exact tells_told trivial .network .network
  | initialiseCaches => exact w.tells_initialiseCaches
  | buildImage c tags => exact w.tells_buildImage c tags
  | pullImage reference => exact tells_pullImage reference
  | createContainer c image network => exact tells_createContainer hg c image network
  | startContainer c handle => exact tells_told rfl (fun _ => .started ..) (.started _ _)
  | awaitHealth c handle => exact tells_awaitHealth c handle
  | runSetupCommands c handle =>
    unfold perform runSetupCommands
    dsimp only
    split
    · exact .succeed (.ready ..)
    · next k hk =>
      obtain rfl : k.name = c := Graph.name_of_container? hg hk
      exact w.tells_runSetup ..
  | runContainer c handle => exact tells_told rfl (.exited _ _) (.exited _ _)
  | stopContainer c handle => exact tells_told rfl (fun _ => .stopped ..) (.stopped _ _)
  | removeContainer c handle => exact tells_told rfl (fun _ => .removed ..) (.removed _ _)
  | deleteFile path => exact tells_toldChange (.fileDeleted _) (.fileDeleted _)
  | deleteDirectory path => exact tells_toldChange (.directoryDeleted _) (.directoryDeleted _)
  | deleteNetwork network =>
    exact tells_told rfl (fun _ => .networkDeleted ..) (.networkDeleted _)

end Worker

end Stevedore
