import Stevedore.Proofs.Conduct

/-!
What a step has done once it has come to its end.

For most steps this is a call and the event that tells of its outcome (`through_told`). Two steps
make containers. One that creates a container of the task ends with the creation and tells of it
(`through_createContainer`). One that makes the caches ready may create a container that nothing
tells of; it removes that container before it ends, whatever happens in between
(`through_initialiseCaches`). Everything around this is `Calm`: it makes nothing, takes nothing
down, and tells of no milestone.
-/

namespace Stevedore

namespace Deed

/-- The container that was made, with the name by which its neighbours know it. -/
def made? : Deed → Option (Option String × Handle)
  | answered (.createContainer request) (.ok handle) => some (request.knownAs, handle)
  | _ => none

/-- The container that was told to have been created. -/
def created? : Deed → Option (String × Handle)
  | posted (.containerCreated c handle) => some (c, handle)
  | _ => none

/-- The container that was asked to be removed. -/
def removal? : Deed → Option Handle
  | asked (.removeContainer handle) => some handle
  | _ => none

/-- Whether the deed makes nothing, starts and takes down nothing, and tells of no milestone. -/
def Calm : Deed → Prop
  | posted e => e.milestone? = none
  | asked (.stopContainer _) | asked (.removeContainer _) | asked (.deleteNetwork _) => False
  | answered (.createContainer _) (.ok _) | answered (.createNetwork ..) (.ok _)
  | answered (.startContainer _) _ | answered (.stopContainer _) _
  | answered (.removeContainer _) _ | answered (.waitForExit _) _
  | answered (.deleteNetwork _) _ => False
  | _ => True

end Deed

theorem mem_made {record : List Deed} {known : Option String} {handle : Handle} :
    (known, handle) ∈ record.filterMap Deed.made? ↔ ∃ request : CreateRequest,
      request.knownAs = known ∧ .answered (.createContainer request) (.ok handle) ∈ record := by
  rw [List.mem_filterMap]
  constructor
  · rintro ⟨d, hd, hmade⟩
    unfold Deed.made? at hmade
    split at hmade
    · obtain ⟨hknown, rfl⟩ := Prod.mk.inj (Option.some.inj hmade)
      exact ⟨_, hknown, hd⟩
    · simp at hmade
  · rintro ⟨request, rfl, hd⟩
    exact ⟨_, hd, rfl⟩

namespace Worker

open Program

variable {w : Worker} {history : List Deed}

/-- A call, and the event that tells of its outcome. -/
theorem through_told {call : EngineCall} {success : call.Answer → Event}
    {failure : String → Event} (h : (told call success failure).Through history ()) :
    (∃ answer, history =
        [.asked call, .answered call (.ok answer), .posted (success answer)]) ∨
      ∃ e, history = [.asked call, .answered call (.error e), .posted (failure e.message)] := by
  obtain ⟨reply, rest, rfl, hrest⟩ := through_ask_quietly.1 h
  cases reply with
  | error e =>
    obtain rfl := through_tell.1 hrest
    exact .inr ⟨e, rfl⟩
  | ok answer =>
    obtain rfl := through_tell.1 hrest
    exact .inl ⟨answer, rfl⟩

theorem through_toldChange {request : FileChange} {success : Event} {failure : String → Event}
    (h : (toldChange request success failure).Through history ()) :
    ∃ result e, history = [.changed request result, .posted e] := by
  obtain ⟨result, rest, rfl, hrest⟩ := through_change.1 h
  cases result with
  | error e =>
    obtain rfl := through_tell.1 hrest
    exact ⟨_, _, rfl⟩
  | ok a =>
    obtain rfl := through_tell.1 hrest
    exact ⟨_, _, rfl⟩

/-! ## Creating a container -/

/-- A container of the task is known to its neighbours by its name. -/
theorem knownAs_of_through {k : Container} {image : Image} {network : Network}
    {request : CreateRequest}
    (h : (w.creationRequest k image network).run.Through history (.ok request)) :
    request.knownAs = some k.name := by
  unfold creationRequest at h
  dsimp only at h
  split at h
  · obtain ⟨extra, -, rest, -, -, hrest⟩ := Attempt.through_bind_ok h
    obtain ⟨command, -, last, -, -, hlast⟩ := Attempt.through_bind_ok hrest
    rw [← Except.ok.inj (through_done.1 hlast).2]
  · obtain ⟨extra, -, rest, -, -, hrest⟩ := Attempt.through_bind_ok h
    obtain ⟨command, -, last, -, -, hlast⟩ := Attempt.through_bind_ok hrest
    rw [← Except.ok.inj (through_done.1 hlast).2]

/-- What only reports and asks nothing is calm. -/
theorem calm_of_within (step : Step) {d : Deed}
    (h : d.Within step.Reports fun _ => False) : d.Calm := by
  cases d with
  | posted e => exact Step.Reports.milestone? h
  | asked | answered => exact h.elim
  | changed => trivial

/-- A step that creates a container tells of it, and otherwise makes nothing. -/
theorem through_createContainer (hg : w.graph.WellFormed) {c : String} {image : Image}
    {network : Network} (h : (w.createContainer c image network).Through history ()) :
    (∀ d ∈ history, d.Calm) ∨ ∃ before request handle, (∀ d ∈ before, d.Calm) ∧
      request.knownAs = some c ∧ history = before ++
        [.answered (.createContainer request) (.ok handle),
          .posted (.containerCreated c handle)] := by
  unfold createContainer at h
  split at h
  · obtain rfl := through_tell.1 h
    exact .inl (by simp [Deed.Calm, Event.milestone?])
  · next k hk =>
    obtain rfl : k.name = c := Graph.name_of_container? hg hk
    obtain ⟨outcome, first, second, rfl, hrequest, hrest⟩ := through_bind.1 h
    have hfirst : ∀ d ∈ first, d.Calm := fun d hd =>
      calm_of_within _ (hrequest.within (w.within_creationRequest k image network) d hd)
    cases outcome with
    | error message =>
      obtain rfl := through_tell.1 hrest
      exact .inl (List.forall_mem_append.2 ⟨hfirst, by simp [Deed.Calm, Event.milestone?]⟩)
    | ok request =>
      obtain ⟨reply, rest, rfl, hreply⟩ := through_ask_quietly.1 hrest
      cases reply with
      | error e =>
        obtain rfl := through_tell.1 hreply
        exact .inl (List.forall_mem_append.2 ⟨hfirst, by simp [Deed.Calm, Event.milestone?]⟩)
      | ok handle =>
        obtain rfl := through_tell.1 hreply
        refine .inr ⟨first ++ [.asked (.createContainer request)], request, handle, ?_,
          knownAs_of_through hrequest, by simp⟩
        exact List.forall_mem_append.2 ⟨hfirst, by simp [Deed.Calm]⟩

/-! ## Making the caches ready -/

/-- While volumes are handed over nothing is asked but to start the container and to wait for it. -/
def DuringHandOver (handle : Handle) : EngineCall → Prop
  | .startContainer container | .waitForExit container => container = handle
  | _ => False

/-- How volumes may be handed over: no container is made for it, or one that is removed again. -/
inductive HandedOver : List Deed → Prop
  | calm {history : List Deed} (all : ∀ d ∈ history, d.Calm) : HandedOver history
  | removed {before during : List Deed} {request : CreateRequest} {handle : Handle}
      {reply : Reply (.removeContainer handle)} (calm : ∀ d ∈ before, d.Calm)
      (unknown : request.knownAs = none)
      (within : ∀ d ∈ during, d.Within (fun _ => False) (DuringHandOver handle)) :
      HandedOver (before ++ .answered (.createContainer request) (.ok handle) :: (during ++
        [.asked (.removeContainer handle), .answered (.removeContainer handle) reply]))

theorem HandedOver.append_left {before : List Deed} (hbefore : ∀ d ∈ before, d.Calm)
    (h : HandedOver history) : HandedOver (before ++ history) := by
  cases h with
  | calm all => exact .calm (List.forall_mem_append.2 ⟨hbefore, all⟩)
  | removed calm unknown within =>
    rw [← List.append_assoc]
    exact .removed (List.forall_mem_append.2 ⟨hbefore, calm⟩) unknown within

theorem through_handOver {volumes : List String} {result : Except String Unit}
    (h : (w.handOver volumes).run.Through history result) : HandedOver history := by
  unfold handOver at h
  obtain ⟨message, -, hpull⟩ | ⟨image, first, rest₁, rfl, hpull, hrest₁⟩ := Attempt.through_bind.1 h
  · obtain ⟨e, rfl⟩ := Attempt.through_engine_error hpull
    exact .calm (by simp [Deed.Calm])
  obtain rfl := Attempt.through_engine_ok hpull
  refine .append_left (by simp [Deed.Calm]) ?_
  obtain ⟨message, -, hcreate⟩ | ⟨handle, second, rest₂, rfl, hcreate, hrest₂⟩ :=
    Attempt.through_bind.1 hrest₁
  · obtain ⟨e, rfl⟩ := Attempt.through_engine_error hcreate
    exact .calm (by simp [Deed.Calm])
  obtain rfl := Attempt.through_engine_ok hcreate
  -- From here on the container is there, and every way leads to its removal.
  obtain ⟨message, -, hlift⟩ | ⟨outcome, during, rest₃, rfl, hlift, hrest₃⟩ :=
    Attempt.through_bind.1 hrest₂
  · obtain ⟨_, heq, -⟩ := Attempt.through_lift.1 hlift
    simp at heq
  obtain ⟨_, -, hduring⟩ := Attempt.through_lift.1 hlift
  obtain ⟨message, -, hlift⟩ | ⟨_, third, rest₄, rfl, hlift, hrest₄⟩ :=
    Attempt.through_bind.1 hrest₃
  · obtain ⟨_, heq, -⟩ := Attempt.through_lift.1 hlift
    simp at heq
  obtain ⟨_, -, hremove⟩ := Attempt.through_lift.1 hlift
  obtain ⟨reply, _, rfl, hdone⟩ := through_ask_quietly.1 hremove
  obtain ⟨rfl, -⟩ := through_done.1 hdone
  have hnothing : rest₄ = [] := by
    obtain ⟨message, -, hend⟩ | ⟨exitCode, fourth, rest₅, rfl, hexit, hend⟩ :=
      Attempt.through_bind.1 hrest₄
    · exact (through_done.1 hend).1
    · rw [(through_done.1 hexit).1, List.nil_append]
      split at hend
      · exact (through_done.1 hend).1
      · exact (through_done.1 hend).1
  rw [hnothing, List.append_nil]
  have hwithin : ∀ d ∈ during, d.Within (fun _ => False) (DuringHandOver handle) :=
    hduring.within (Within.attempt_bind (.engine rfl) fun _ => .engine rfl)
  exact @HandedOver.removed [_] during _ handle reply (by simp [Deed.Calm]) rfl hwithin

/-- Creating directories is calm. -/
theorem calm_of_createCacheDirectories {caches : List Cache} {result : Except String Unit}
    (h : (createCacheDirectories caches).run.Through history result) : ∀ d ∈ history, d.Calm :=
  fun d hd => calm_of_within .initialiseCaches
    (h.within (within_createCacheDirectories caches) d hd)

theorem through_initialiseCaches (h : w.initialiseCaches.Through history ()) :
    ∃ inner last, HandedOver inner ∧ Step.initialiseCaches.EndsWith last ∧
      history = inner ++ [.posted last] := by
  obtain ⟨outcome, inner, rest, rfl, hprepare, hrest⟩ := through_bind.1 h
  have hinner : HandedOver inner := by
    unfold prepareCaches at hprepare
    split at hprepare
    · rw [(through_done.1 hprepare).1]
      exact .calm (by simp)
    · obtain ⟨message, -, hdirectories⟩ | ⟨_, first, second, rfl, hdirectories, hsecond⟩ :=
        Attempt.through_bind.1 hprepare
      · exact .calm (calm_of_createCacheDirectories hdirectories)
      · refine .append_left (calm_of_createCacheDirectories hdirectories) ?_
        split at hsecond
        · rw [(through_done.1 hsecond).1]
          exact .calm (by simp)
        · exact through_handOver hsecond
  cases outcome with
  | error message =>
    obtain rfl := through_tell.1 hrest
    exact ⟨inner, _, hinner, .inr (.caches _), rfl⟩
  | ok _ =>
    obtain rfl := through_tell.1 hrest
    exact ⟨inner, _, hinner, .inl .caches, rfl⟩

end Worker

/-! ## The balance of a history -/

/-- Whether each container that was made is either told of or removed again, and nothing else is
removed. -/
def Balanced (history : List Deed) : Prop :=
  (history.filterMap Deed.made?).Perm
    ((history.filterMap Deed.created?).map (fun e => (some e.1, e.2)) ++
      (history.filterMap Deed.removal?).map fun handle => (none, handle))

namespace Balanced

variable {history history' : List Deed}

theorem of_none (h : ∀ d ∈ history, d.made? = none ∧ d.created? = none ∧ d.removal? = none) :
    Balanced history := by
  have hmade : history.filterMap Deed.made? = [] :=
    List.filterMap_eq_nil_iff.2 fun d hd => (h d hd).1
  have hcreated : history.filterMap Deed.created? = [] :=
    List.filterMap_eq_nil_iff.2 fun d hd => (h d hd).2.1
  have hremoved : history.filterMap Deed.removal? = [] :=
    List.filterMap_eq_nil_iff.2 fun d hd => (h d hd).2.2
  rw [Balanced, hmade, hcreated, hremoved]
  exact .refl _

theorem append (h : Balanced history) (h' : Balanced history') :
    Balanced (history ++ history') := by
  unfold Balanced at h h' ⊢
  simp only [List.filterMap_append, List.map_append]
  refine (h.append h').trans ?_
  rw [List.append_assoc, List.append_assoc]
  refine .append_left _ ?_
  rw [← List.append_assoc, ← List.append_assoc]
  exact .append_right _ List.perm_append_comm

theorem perm (h : Balanced history) (hperm : history.Perm history') : Balanced history' := by
  unfold Balanced at h ⊢
  refine ((hperm.filterMap _).symm.trans h).trans ?_
  exact ((hperm.filterMap _).map _).append ((hperm.filterMap _).map _)

theorem flatMap {α : Type} {f : α → List Deed} {l : List α} (h : ∀ a ∈ l, Balanced (f a)) :
    Balanced (l.flatMap f) := by
  induction l with
  | nil => exact .of_none (by simp)
  | cons a l ih =>
    rw [List.flatMap_cons]
    exact (h a (List.mem_cons_self ..)).append (ih fun b hb => h b (List.mem_cons_of_mem _ hb))

end Balanced

/-- Calm deeds do not count. -/
theorem Deed.Calm.counts {d : Deed} (h : d.Calm) :
    d.made? = none ∧ d.created? = none ∧ d.removal? = none := by
  refine ⟨?_, ?_, ?_⟩
  · unfold made?
    split
    · exact h.elim
    · rfl
  · unfold created?
    split
    · simp [Calm, Event.milestone?] at h
    · rfl
  · unfold removal?
    split
    · exact h.elim
    · rfl

theorem Balanced.of_calm {history : List Deed} (h : ∀ d ∈ history, d.Calm) : Balanced history :=
  .of_none fun d hd => (h d hd).counts

theorem Worker.HandedOver.balanced {history : List Deed} (h : HandedOver history) :
    Balanced history := by
  cases h with
  | calm all => exact .of_calm all
  | @removed before during request handle reply calm unknown within =>
    have hbefore : Balanced before := .of_calm calm
    have hduring : Balanced during := by
      refine .of_none ?_
      intro d hd
      have hmay := within d hd
      cases d with
      | posted e => exact hmay.elim
      | asked call | answered call =>
        cases call <;> first | exact ⟨rfl, rfl, rfl⟩ | exact hmay.elim
      | changed => exact ⟨rfl, rfl, rfl⟩
    have hhelper : Balanced [.answered (.createContainer request) (.ok handle),
        .asked (.removeContainer handle), .answered (.removeContainer handle) reply] := by
      simp [Balanced, List.filterMap_cons, Deed.made?, Deed.created?, Deed.removal?, unknown]
    exact hbefore.append ((hduring.append hhelper).perm List.perm_middle)

/-- Only the container that was made for handing over is started and waited for. -/
theorem Worker.HandedOver.made_of_answered {history : List Deed} {handle : Handle}
    {call : EngineCall} {reply : Reply call} (h : HandedOver history)
    (hd : .answered call reply ∈ history)
    (hcall : call = .startContainer handle ∨ call = .waitForExit handle) :
    (none, handle) ∈ history.filterMap Deed.made? := by
  cases h with
  | calm all =>
    have hcalm := all _ hd
    rcases hcall with rfl | rfl <;> exact hcalm.elim
  | @removed before during request other _ calm unknown within =>
    have hother : handle = other := by
      simp only [List.mem_append, List.mem_cons, reduceCtorEq, List.not_mem_nil, false_or,
        or_false] at hd
      rcases hd with hd | hd | hd | hd
      · have hcalm := calm _ hd
        rcases hcall with rfl | rfl <;> exact hcalm.elim
      · rcases hcall with rfl | rfl <;> simp at hd
      · have hmay := within _ hd
        rcases hcall with rfl | rfl <;> exact hmay
      · rcases hcall with rfl | rfl <;> simp at hd
    exact mem_made.2 ⟨request, unknown, by simp [hother]⟩

/-- The container that was made for handing over is asked to be removed, and the engine replies. -/
theorem Worker.HandedOver.removal_answered {history : List Deed} {request : CreateRequest}
    {handle : Handle} (h : HandedOver history)
    (hd : .answered (.createContainer request) (.ok handle) ∈ history) :
    ∃ reply, [.answered (.createContainer request) (.ok handle),
      .answered (.removeContainer handle) reply].Sublist history := by
  cases h with
  | calm all => exact (all _ hd).elim
  | @removed before during _ other reply calm unknown within =>
    simp only [List.mem_append, List.mem_cons, reduceCtorEq, List.not_mem_nil, false_or,
      or_false, Deed.answered.injEq] at hd
    rcases hd with hd | ⟨hcall, hok⟩ | hd | ⟨hcall, -⟩
    · exact (calm _ hd).elim
    · obtain rfl := EngineCall.createContainer.inj hcall
      obtain rfl := Except.ok.inj (eq_of_heq hok)
      refine ⟨reply, List.Sublist.trans (.cons_cons _ ?_) (List.sublist_append_right _ _)⟩
      exact (List.Sublist.cons _ (.refl _)).trans (List.sublist_append_right _ _)
    · exact (within _ hd).elim
    · simp at hcall

namespace Worker

open Program

variable {w : Worker} {step : Step} {history : List Deed}

/-- **No step forgets a container that it has made**, except where taking down is its task. -/
theorem balanced_perform (hg : w.graph.WellFormed) (hs : step.isTeardown = false)
    (h : (w.perform step).Through history ()) : Balanced history := by
  have hwithin := h.within (tells_perform hg step).within
  cases step with
  | initialiseCaches =>
    obtain ⟨inner, last, hinner, hlast, rfl⟩ := through_initialiseCaches h
    refine hinner.balanced.append (.of_none ?_)
    rcases hlast with hlast | hlast <;> cases hlast <;>
      simp [Deed.made?, Deed.created?, Deed.removal?]
  | createContainer c image network =>
    rcases through_createContainer hg h with hcalm | ⟨before, request, handle, hcalm, hknown, rfl⟩
    · exact .of_calm hcalm
    · refine Balanced.append (.of_calm hcalm) ?_
      simp [Balanced, List.filterMap_cons, Deed.made?, Deed.created?, Deed.removal?, hknown]
  | stopContainer | removeContainer | deleteFile | deleteDirectory | deleteNetwork =>
    simp [Step.isTeardown] at hs
  | _ =>
    refine .of_none ?_
    intro d hd
    have hmay := hwithin d hd
    cases d with
    | posted e =>
      rcases hmay with hmay | hmay | hmay <;> cases hmay <;> exact ⟨rfl, rfl, rfl⟩
    | asked call | answered call =>
      cases call <;> first | exact ⟨rfl, rfl, rfl⟩ | exact hmay.elim
    | changed => exact ⟨rfl, rfl, rfl⟩

/-- **What is made for the caches is asked to be removed**, whichever step made it, and the engine
replies. -/
theorem removal_answered (hg : w.graph.WellFormed) (h : (w.perform step).Through history ())
    {handle : Handle} (hd : (none, handle) ∈ history.filterMap Deed.made?) :
    ∃ request reply, [.answered (.createContainer request) (.ok handle),
      .answered (.removeContainer handle) reply].Sublist history := by
  obtain ⟨request, hunknown, hd⟩ := mem_made.1 hd
  have hmay := h.within (tells_perform hg step).within _ hd
  cases step with
  | initialiseCaches =>
    obtain ⟨inner, last, hinner, -, rfl⟩ := through_initialiseCaches h
    have hd : .answered (.createContainer request) (.ok handle) ∈ inner := by simpa using hd
    obtain ⟨reply, hsub⟩ := hinner.removal_answered hd
    exact ⟨request, reply, hsub.trans (List.sublist_append_left _ _)⟩
  | createContainer c image network =>
    rcases through_createContainer hg h with hcalm | ⟨before, other, _, hcalm, hknown, rfl⟩
    · exact (hcalm _ hd).elim
    · rcases List.mem_append.1 hd with hd | hd
      · exact (hcalm _ hd).elim
      · obtain ⟨rfl, -⟩ : request = other ∧ _ := by simpa using hd
        simp [hunknown] at hknown
  | _ => exact hmay.elim

/-! ## What the engine says and what is told -/

/-- The network is told of when the engine has made it. -/
theorem network_perform (hg : w.graph.WellFormed) (h : (w.perform step).Through history ())
    {network : Network} :
    (∃ name driver, .answered (.createNetwork name driver) (.ok network) ∈ history) ↔
      .posted (.networkCreated network) ∈ history := by
  have hwithin := h.within (tells_perform hg step).within
  cases step with
  | createNetwork =>
    rcases through_told h with ⟨(answer : Network), rfl⟩ | ⟨e, rfl⟩
    · constructor
      · rintro ⟨name, driver, hd⟩
        simp only [List.mem_cons, reduceCtorEq, List.not_mem_nil, or_false, false_or,
          Deed.answered.injEq, EngineCall.createNetwork.injEq] at hd
        obtain ⟨⟨rfl, rfl⟩, hok⟩ := hd
        rw [Except.ok.inj (eq_of_heq hok)]
        simp
      · intro hd
        obtain rfl : network = answer := by simpa using hd
        exact ⟨_, _, .tail _ (.head _)⟩
    · simp
  | _ =>
    constructor
    · rintro ⟨name, driver, hd⟩
      exact (hwithin _ hd).elim
    · intro hd
      rcases hwithin _ hd with hmay | hmay | hmay <;> cases hmay

/-- Whoever is started is a container whose start is told, or one that is made for the caches. -/
theorem started_of_answered (hg : w.graph.WellFormed) (h : (w.perform step).Through history ())
    {handle : Handle} (hd : .answered (.startContainer handle) (.ok ()) ∈ history) :
    (∃ c, step = .startContainer c handle ∧ .posted (.containerStarted c) ∈ history) ∨
      (none, handle) ∈ history.filterMap Deed.made? := by
  have hmay := h.within (tells_perform hg step).within _ hd
  cases step with
  | startContainer c other =>
    obtain rfl : handle = other := hmay
    rcases through_told h with ⟨answer, rfl⟩ | ⟨e, rfl⟩
    · exact .inl ⟨c, rfl, by simp⟩
    · simp at hd
  | initialiseCaches =>
    obtain ⟨inner, last, hinner, -, rfl⟩ := through_initialiseCaches h
    rw [List.filterMap_append, List.mem_append]
    have hd : .answered (.startContainer handle) (.ok ()) ∈ inner := by simpa using hd
    exact .inr (.inl (hinner.made_of_answered hd (.inl rfl)))
  | _ => exact hmay.elim

theorem answered_of_started (hg : w.graph.WellFormed) (h : (w.perform step).Through history ())
    {c : String} (hd : .posted (.containerStarted c) ∈ history) :
    ∃ handle, step = .startContainer c handle ∧
      .answered (.startContainer handle) (.ok ()) ∈ history := by
  rcases h.within (tells_perform hg step).within _ hd with hmay | hmay | hmay <;> cases hmay
  rcases through_told h with ⟨answer, rfl⟩ | ⟨e, rfl⟩
  · exact ⟨_, rfl, .tail _ (.head _)⟩
  · simp at hd

/-- Whose exit is reported is a container of the task whose exit is told, or one that is made for
the caches. -/
theorem exited_of_answered (hg : w.graph.WellFormed) (h : (w.perform step).Through history ())
    {handle : Handle} {exitCode : Int}
    (hd : .answered (.waitForExit handle) (.ok exitCode) ∈ history) :
    (∃ c, step = .runContainer c handle ∧ .posted (.containerExited c exitCode) ∈ history) ∨
      (none, handle) ∈ history.filterMap Deed.made? := by
  have hmay := h.within (tells_perform hg step).within _ hd
  cases step with
  | runContainer c other =>
    obtain rfl : handle = other := hmay
    rcases through_told h with ⟨(answer : Int), rfl⟩ | ⟨e, rfl⟩
    · have hok : (.ok exitCode : Reply (.waitForExit handle)) = .ok answer := by simpa using hd
      obtain rfl : exitCode = answer := Except.ok.inj hok
      exact .inl ⟨c, rfl, by simp⟩
    · simp at hd
  | initialiseCaches =>
    obtain ⟨inner, last, hinner, -, rfl⟩ := through_initialiseCaches h
    rw [List.filterMap_append, List.mem_append]
    have hd : .answered (.waitForExit handle) (.ok exitCode) ∈ inner := by simpa using hd
    exact .inr (.inl (hinner.made_of_answered hd (.inr rfl)))
  | _ => exact hmay.elim

theorem answered_of_exited (hg : w.graph.WellFormed) (h : (w.perform step).Through history ())
    {c : String} {exitCode : Int} (hd : .posted (.containerExited c exitCode) ∈ history) :
    ∃ handle, step = .runContainer c handle ∧
      .answered (.waitForExit handle) (.ok exitCode) ∈ history := by
  rcases h.within (tells_perform hg step).within _ hd with hmay | hmay | hmay <;> cases hmay
  rcases through_told h with ⟨(answer : Int), rfl⟩ | ⟨e, rfl⟩
  · obtain rfl : exitCode = answer := by simpa using hd
    exact ⟨_, rfl, .tail _ (.head _)⟩
  · simp at hd

end Worker

/-! ## Taking down -/

/-- What a step that takes something down asks the engine for, if it is the engine's. -/
def Step.call? : Step → Option EngineCall
  | stopContainer _ handle => some (.stopContainer handle)
  | removeContainer _ handle => some (.removeContainer handle)
  | deleteNetwork network => some (.deleteNetwork network)
  | _ => none

namespace Step

variable {step : Step} {handle : Handle} {network : Network}

theorem call?_eq_stopContainer :
    step.call? = some (.stopContainer handle) ↔ ∃ c, step = .stopContainer c handle := by
  cases step <;> simp [call?]

theorem call?_eq_deleteNetwork :
    step.call? = some (.deleteNetwork network) ↔ step = .deleteNetwork network := by
  cases step <;> simp [call?]

end Step

namespace Worker

variable {w : Worker} {step : Step} {history : List Deed}

/-- A step that takes something down makes one call, or changes a file. -/
theorem through_teardown (hs : step.isTeardown = true)
    (h : (w.perform step).Through history ()) :
    (∃ call answer e, step.call? = some call ∧
        history = [.asked call, .answered call (.ok answer), .posted e] ∧ step.Succeeds e) ∨
      (∃ call error e, step.call? = some call ∧
        history = [.asked call, .answered call (.error error), .posted e] ∧ step.Fails e) ∨
      ∃ request result e, step.call? = none ∧ history = [.changed request result, .posted e] := by
  cases step with
  | stopContainer c handle =>
    rcases through_told h with ⟨answer, rfl⟩ | ⟨e, rfl⟩
    · exact .inl ⟨_, answer, _, rfl, rfl, .stopped ..⟩
    · exact .inr (.inl ⟨_, e, _, rfl, rfl, .stopped ..⟩)
  | removeContainer c handle =>
    rcases through_told h with ⟨answer, rfl⟩ | ⟨e, rfl⟩
    · exact .inl ⟨_, answer, _, rfl, rfl, .removed ..⟩
    · exact .inr (.inl ⟨_, e, _, rfl, rfl, .removed ..⟩)
  | deleteNetwork network =>
    rcases through_told h with ⟨answer, rfl⟩ | ⟨e, rfl⟩
    · exact .inl ⟨_, answer, _, rfl, rfl, .networkDeleted ..⟩
    · exact .inr (.inl ⟨_, e, _, rfl, rfl, .networkDeleted ..⟩)
  | deleteFile | deleteDirectory =>
    obtain ⟨result, e, rfl⟩ := through_toldChange h
    exact .inr (.inr ⟨_, result, e, rfl, rfl⟩)
  | _ => simp [Step.isTeardown] at hs

theorem callsOf_teardown (hs : step.isTeardown = true)
    (h : (w.perform step).Through history ()) : callsOf history = step.call?.toList := by
  obtain ⟨call, answer, e, hcall, rfl, -⟩ | ⟨call, error, e, hcall, rfl, -⟩ |
    ⟨request, result, e, hcall, rfl⟩ := through_teardown hs h <;> rw [hcall] <;> rfl

/-- Nothing else is asked, so nothing else is answered. -/
theorem call?_of_answered (hs : step.isTeardown = true) (h : (w.perform step).Through history ())
    {call : EngineCall} {reply : Reply call} (hd : .answered call reply ∈ history) :
    step.call? = some call := by
  obtain ⟨call', answer, e, hcall, rfl, -⟩ | ⟨call', error, e, hcall, rfl, -⟩ |
    ⟨request, result, e, -, rfl⟩ := through_teardown hs h
  · obtain ⟨rfl, -⟩ : call = call' ∧ _ := by simpa using hd
    exact hcall
  · obtain ⟨rfl, -⟩ : call = call' ∧ _ := by simpa using hd
    exact hcall
  · simp at hd

/-- Taking down makes nothing. -/
theorem made_teardown (hs : step.isTeardown = true)
    (h : (w.perform step).Through history ()) : history.filterMap Deed.made? = [] := by
  obtain ⟨call, answer, e, hcall, rfl, -⟩ | ⟨call, error, e, hcall, rfl, -⟩ |
    ⟨request, result, e, hcall, rfl⟩ := through_teardown hs h
  · cases step <;> simp [Step.call?] at hcall <;> subst hcall <;> rfl
  · cases step <;> simp [Step.call?] at hcall <;> subst hcall <;> rfl
  · rfl

/-- Success is told only of a call that succeeded. -/
theorem answered_of_succeeds (hs : step.isTeardown = true)
    (h : (w.perform step).Through history ()) {call : EngineCall} (hcall : step.call? = some call)
    {e : Event} (hd : .posted e ∈ history) (he : step.Succeeds e) :
    ∃ answer, .answered call (.ok answer) ∈ history := by
  obtain ⟨call', answer, e', hcall', rfl, -⟩ | ⟨call', error, e', hcall', rfl, hfails⟩ |
    ⟨request, result, e', hcall', rfl⟩ := through_teardown hs h
  · obtain rfl := Option.some.inj (hcall.symm.trans hcall')
    exact ⟨answer, by simp⟩
  · obtain rfl : e = e' := by simpa using hd
    have hmilestone := he.milestone?
    rw [hfails.milestone?] at hmilestone
    simp at hmilestone
  · rw [hcall] at hcall'
    simp at hcall'

end Worker

end Stevedore
