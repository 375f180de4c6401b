import Mathlib.Data.Option.Basic
import Stevedore.Machine
import Stevedore.Proofs.Resolved
import Stevedore.Proofs.Summary

/-!
What a step that is planned says about the events so far.

`Graph.Allows` is the condition under which a step belongs into the run stage, in terms of events
only: each stage of a container asks for the success of the one before it, and its creation asks
besides for the network, the caches and everything the container waits for. A step that is planned
is allowed (`allows_of_mem_nextSteps`), was not started before (`not_started_of_mem_nextSteps`),
and shares its milestone with no other step of the plan (`eq_of_mem_nextSteps`).

The steps fall into two kinds. A preparation (the network, the caches, an image) is determined by
its milestone, so that comparing whole steps is enough to do it once. A stage of a container
carries what the engine chose; it is planned because its milestone has not been reached.
-/

namespace Stevedore

/-- Whether the step serves no single stage of a container. -/
def Step.isPreparation : Step → Bool
  | createNetwork | initialiseCaches | buildImage .. | pullImage _ => true
  | _ => false

/-- What makes a step a preparation is what it is there for. -/
theorem Step.isPreparation_of_milestone_eq {step preparation : Step}
    (hp : preparation.isPreparation = true) (hm : step.milestone = preparation.milestone) :
    step.isPreparation = true := by
  cases preparation <;> simp only [isPreparation, Bool.false_eq_true] at hp <;>
    cases step <;> simp only [milestone, reduceCtorEq] at hm <;> rfl

theorem Graph.isPreparation_imageStep (g : Graph) (k : Container) :
    (g.imageStep k).isPreparation = true := by
  unfold imageStep
  cases k.image <;> rfl

/-- The event that makes an image of the container known. -/
def Container.imageEvent (k : Container) (image : Image) : Event :=
  match k.image with
  | .build .. => .imageBuilt k.name image
  | .pull reference => .imagePulled reference image

/-- An image is made known by the step that makes it available. -/
theorem Container.milestone?_imageEvent (g : Graph) (k : Container) (image : Image) :
    (k.imageEvent image).milestone? = some (g.imageStep k).milestone := by
  unfold imageEvent Graph.imageStep
  cases k.image <;> rfl

theorem Container.imageEvent_inj {k : Container} {image image' : Image}
    (h : k.imageEvent image = k.imageEvent image') : image = image' := by
  unfold imageEvent at h
  cases hi : k.image with
  | build =>
    rw [hi] at h
    exact (Event.imageBuilt.inj h).2
  | pull =>
    rw [hi] at h
    exact (Event.imagePulled.inj h).2

namespace Graph

/-- What the events have to tell before a step of the run stage may start. -/
def Allows (g : Graph) (events : List Event) : Step → Prop
  | .createNetwork | .initialiseCaches => True
  | .buildImage c tags => ∃ k ∈ g.containers, g.imageStep k = .buildImage c tags
  | .pullImage reference => ∃ k ∈ g.containers, g.imageStep k = .pullImage reference
  | .createContainer c image network =>
    (∃ k ∈ g.containers, k.name = c ∧ k.imageEvent image ∈ events) ∧
      .networkCreated network ∈ events ∧ .cachesInitialised ∈ events ∧
      ∀ d, g.WaitsFor c d → .containerReady d ∈ events
  | .startContainer c handle => c ∈ g.names ∧ .containerCreated c handle ∈ events
  | .awaitHealth c handle =>
    c ∈ g.names ∧ .containerCreated c handle ∈ events ∧ .containerStarted c ∈ events
  | .runSetupCommands c handle =>
    c ∈ g.names ∧ .containerCreated c handle ∈ events ∧ .containerHealthy c ∈ events
  | .runContainer c handle =>
    c = g.main ∧ .containerCreated c handle ∈ events ∧ .containerReady c ∈ events
  | .stopContainer .. | .removeContainer .. | .deleteFile _ | .deleteDirectory _
  | .deleteNetwork _ => False

variable {g : Graph} {s : Summary} {events : List Event} {step : Step}

theorem Allows.mono {l r : List Event} (h : g.Allows l step) (hs : l ⊆ r) : g.Allows r step := by
  cases step with
  | createContainer c image network =>
    obtain ⟨⟨k, hk, hname, himage⟩, hn, hc, hd⟩ := h
    exact ⟨⟨k, hk, hname, hs himage⟩, hs hn, hs hc, fun d hw => hs (hd d hw)⟩
  | startContainer c handle => exact ⟨h.1, hs h.2⟩
  | awaitHealth c handle => exact ⟨h.1, hs h.2.1, hs h.2.2⟩
  | runSetupCommands c handle => exact ⟨h.1, hs h.2.1, hs h.2.2⟩
  | runContainer c handle => exact ⟨h.1, hs h.2.1, hs h.2.2⟩
  | _ => exact h

theorem Allows.isTeardown (h : g.Allows events step) : step.isTeardown = false := by
  cases step <;> first | rfl | exact h.elim

theorem tags_of_imageStep {k : Container} {c : String} {tags : List String}
    (h : g.imageStep k = .buildImage c tags) : tags = [imageTag g.projectName c] := by
  unfold imageStep at h
  split at h
  · obtain ⟨rfl, rfl⟩ := Step.buildImage.inj h
    rfl
  · simp at h

/-- A preparation is determined by its milestone. -/
theorem Allows.eq_of_isPreparation {other : Step} {events' : List Event}
    (h : g.Allows events step) (h' : g.Allows events' other) (hp : step.isPreparation = true)
    (hm : step.milestone = other.milestone) : step = other := by
  cases step <;> simp only [Step.isPreparation, Bool.false_eq_true] at hp <;>
    cases other <;> simp only [Step.milestone, reduceCtorEq, Milestone.built.injEq,
      Milestone.pulled.injEq] at hm
  case buildImage c tags c' tags' =>
    obtain ⟨k, -, hk⟩ := h
    obtain ⟨k', -, hk'⟩ := h'
    rw [tags_of_imageStep hk, tags_of_imageStep hk', hm]
  all_goals simp [hm]

/-! ## Containers by name -/

theorem mem_names {name : String} : name ∈ g.names ↔ g.nodes.contains name = true := by
  simp only [names, SortedMap.keys, List.mem_map, Prod.exists, exists_and_right, exists_eq_right,
    SortedMap.mem_entries_iff, SortedMap.contains, Option.isSome_iff_exists]

theorem mem_containers (hg : g.WellFormed) {k : Container} :
    k ∈ g.containers ↔ g.container? k.name = some k := by
  simp only [containers, SortedMap.values, List.mem_map, Prod.exists, SortedMap.mem_entries_iff,
    container?, Option.map_eq_some_iff]
  constructor
  · rintro ⟨node, ⟨name, node', hnode, rfl⟩, rfl⟩
    exact ⟨node', hg.named name node' hnode ▸ hnode, rfl⟩
  · rintro ⟨node, hnode, hk⟩
    exact ⟨node, ⟨k.name, node, hnode, rfl⟩, hk⟩

/-- There is one container of each name. -/
theorem eq_of_name_eq (hg : g.WellFormed) {k k' : Container} (hk : k ∈ g.containers)
    (hk' : k' ∈ g.containers) (hn : k.name = k'.name) : k = k' := by
  rw [mem_containers hg] at hk hk'
  rw [hn, hk'] at hk
  exact (Option.some.inj hk).symm

theorem name_mem_names (hg : g.WellFormed) {k : Container} (hk : k ∈ g.containers) :
    k.name ∈ g.names := by
  rw [mem_containers hg] at hk
  obtain ⟨node, hnode, -⟩ := Option.map_eq_some_iff.1 hk
  rw [mem_names, SortedMap.contains, hnode]
  rfl

theorem exists_container (hg : g.WellFormed) {name : String} (hn : name ∈ g.names) :
    ∃ k ∈ g.containers, k.name = name := by
  rw [mem_names, SortedMap.contains] at hn
  obtain ⟨node, hnode⟩ := Option.isSome_iff_exists.1 hn
  refine ⟨node.container, (mem_containers hg).2 ?_, hg.named name node hnode⟩
  rw [hg.named name node hnode, container?, hnode]
  rfl

/-! ## What is wanted -/

theorem mem_wantedSteps : step ∈ g.wantedSteps s ↔
    step = .createNetwork ∨ step = .initialiseCaches ∨
      ∃ k ∈ g.containers, (s.created.contains k.name = false ∧ step = g.imageStep k) ∨
        g.containerStep? s k = some step := by
  simp only [wantedSteps, stepsFor, List.mem_append, List.mem_cons, List.not_mem_nil, or_false,
    or_assoc, List.mem_flatMap, Option.mem_toList]
  refine or_congr_right (or_congr_right (exists_congr fun k => and_congr_right fun _ => ?_))
  refine or_congr_left ?_
  cases s.created.contains k.name <;> simp

/-- The stage that a container calls for, with everything that was looked at to decide it. -/
theorem containerStep?_cases {k : Container} (h : g.containerStep? s k = some step) :
    (∃ image network, s.created.contains k.name = false ∧ s.image? k = some image ∧
      s.network = some network ∧ s.cachesInitialised = true ∧
      (∀ d, g.WaitsFor k.name d → s.ready.contains d = true) ∧
      step = .createContainer k.name image network) ∨
    ∃ handle, s.created.get? k.name = some handle ∧
      ((s.started.contains k.name = false ∧ step = .startContainer k.name handle) ∨
      (s.started.contains k.name = true ∧ s.healthy.contains k.name = false ∧
        step = .awaitHealth k.name handle) ∨
      (s.healthy.contains k.name = true ∧ s.ready.contains k.name = false ∧
        step = .runSetupCommands k.name handle) ∨
      (s.ready.contains k.name = true ∧ k.name = g.main ∧ step = .runContainer k.name handle)) := by
  unfold containerStep? at h
  split at h
  · next hnone =>
    left
    unfold creationStep? at h
    simp only [Option.bind_eq_bind, Option.bind_eq_some_iff, Option.guard_eq_some'] at h
    obtain ⟨image, himage, network, hnetwork, -, hcaches, -, hready, hstep⟩ := h
    refine ⟨image, network, by simp [SortedMap.contains, hnone], himage, hnetwork, hcaches, ?_,
      (Option.some.inj hstep).symm⟩
    intro d hd
    exact List.all_eq_true.1 hready d hd
  · next handle hsome =>
    refine .inr ⟨handle, hsome, ?_⟩
    split at h
    · next hst => exact .inl ⟨by simpa using hst, (Option.some.inj h).symm⟩
    split at h
    · next hst hhe =>
      exact .inr (.inl ⟨by simpa using hst, by simpa using hhe, (Option.some.inj h).symm⟩)
    split at h
    · next hhe hre =>
      exact .inr (.inr (.inl ⟨by simpa using hhe, by simpa using hre, (Option.some.inj h).symm⟩))
    split at h
    · next hre hmain =>
      refine .inr (.inr (.inr ⟨by simpa using hre, ?_, (Option.some.inj h).symm⟩))
      exact (of_decide_eq_true hmain).symm
    · simp at h

theorem container?_of_containerStep? {k : Container} (h : g.containerStep? s k = some step) :
    step.container? = some k.name := by
  rcases containerStep?_cases h with ⟨_, _, -, -, -, -, -, rfl⟩ | ⟨_, -, h⟩
  · rfl
  · rcases h with ⟨-, rfl⟩ | ⟨-, -, rfl⟩ | ⟨-, -, rfl⟩ | ⟨-, -, rfl⟩ <;> rfl

/-! ## What is wanted is allowed -/

open Summary (mem_of_shows mem_of_reached reached_ofEvents)

theorem mem_of_image? {k : Container} {image : Image}
    (h : (Summary.ofEvents events).image? k = some image) : k.imageEvent image ∈ events := by
  unfold Summary.image? at h
  unfold Container.imageEvent
  cases hk : k.image <;> simp only [hk] at h ⊢ <;> exact mem_of_shows h

/-- A stage of a container is called for only when the events allow it. -/
theorem allows_of_containerStep? (hg : g.WellFormed) {k : Container} (hk : k ∈ g.containers)
    (h : g.containerStep? (.ofEvents events) k = some step) : g.Allows events step := by
  have hname := name_mem_names hg hk
  rcases containerStep?_cases h with ⟨image, network, -, himage, hn, hc, hd, rfl⟩ | ⟨handle, hc, h⟩
  · refine ⟨⟨k, hk, rfl, mem_of_image? himage⟩, mem_of_shows hn, mem_of_reached .caches rfl hc, ?_⟩
    exact fun d hw => mem_of_reached (.ready d) rfl (hd d hw)
  · have hcreated : .containerCreated k.name handle ∈ events := mem_of_shows hc
    rcases h with ⟨-, rfl⟩ | ⟨hs, -, rfl⟩ | ⟨hh, -, rfl⟩ | ⟨hr, hm, rfl⟩
    · exact ⟨hname, hcreated⟩
    · exact ⟨hname, hcreated, mem_of_reached (.started k.name) rfl hs⟩
    · exact ⟨hname, hcreated, mem_of_reached (.healthy k.name) rfl hh⟩
    · exact ⟨hm, hcreated, mem_of_reached (.ready k.name) rfl hr⟩

/-- A stage that is called for has not been reached, unless it is the run of the main container. -/
theorem not_reachedIn_of_containerStep? {k : Container}
    (h : g.containerStep? (.ofEvents events) k = some step)
    (hexit : ¬ (Milestone.exited g.main).ReachedIn events) : ¬ step.milestone.ReachedIn events := by
  intro hr
  have hr' := (reached_ofEvents events step.milestone).2 hr
  rcases containerStep?_cases h with ⟨image, network, hc, -, -, -, -, rfl⟩ | ⟨handle, hc, h⟩
  · exact absurd hr' (by simp [Step.milestone, Summary.reached, hc])
  · rcases h with ⟨hs, rfl⟩ | ⟨-, hs, rfl⟩ | ⟨-, hs, rfl⟩ | ⟨-, hm, rfl⟩
    · exact absurd hr' (by simp [Step.milestone, Summary.reached, hs])
    · exact absurd hr' (by simp [Step.milestone, Summary.reached, hs])
    · exact absurd hr' (by simp [Step.milestone, Summary.reached, hs])
    · exact hexit (hm ▸ hr)

/-- A step that is wanted is a preparation that the graph has, or a stage of one container. -/
theorem wanted_cases (h : step ∈ g.wantedSteps s) :
    (step.isPreparation = true ∧ ∀ events, g.Allows events step) ∨
      ∃ k ∈ g.containers, g.containerStep? s k = some step := by
  rcases mem_wantedSteps.1 h with rfl | rfl | ⟨k, hk, ⟨-, rfl⟩ | hstep⟩
  · exact .inl ⟨rfl, fun _ => trivial⟩
  · exact .inl ⟨rfl, fun _ => trivial⟩
  · left
    cases hi : g.imageStep k with
    | buildImage c tags => exact ⟨rfl, fun _ => ⟨k, hk, hi⟩⟩
    | pullImage reference => exact ⟨rfl, fun _ => ⟨k, hk, hi⟩⟩
    | _ => cases hk : k.image <;> simp [imageStep, hk] at hi
  · exact .inr ⟨k, hk, hstep⟩

theorem allows_of_mem_wantedSteps (hg : g.WellFormed)
    (h : step ∈ g.wantedSteps (.ofEvents events)) : g.Allows events step := by
  rcases wanted_cases h with ⟨-, hall⟩ | ⟨k, hk, hstep⟩
  · exact hall events
  · exact allows_of_containerStep? hg hk hstep

/-! ## What is fresh -/

/-- The last step of a list is kept unless it was started or stands in the list before. -/
theorem freshSteps_snoc (steps : List Step) (step : Step) :
    freshSteps s (steps ++ [step]) =
      if s.wasDispatched step || (freshSteps s steps).any step.same then freshSteps s steps
      else freshSteps s steps ++ [step] := by
  simp [freshSteps, List.foldl_append]

theorem mem_of_mem_freshSteps {steps : List Step} (h : step ∈ freshSteps s steps) :
    step ∈ steps ∧ s.wasDispatched step = false := by
  induction steps using List.reverseRecOn with
  | nil => simp [freshSteps] at h
  | append_singleton steps last ih =>
    rw [freshSteps_snoc] at h
    split at h
    · exact ⟨List.mem_append_left _ (ih h).1, (ih h).2⟩
    · next hlast =>
      rcases List.mem_append.1 h with h | h
      · exact ⟨List.mem_append_left _ (ih h).1, (ih h).2⟩
      · obtain rfl := List.mem_singleton.1 h
        rw [Bool.or_eq_true, not_or] at hlast
        exact ⟨by simp, by simpa using hlast.1⟩

theorem nodup_freshSteps (steps : List Step) : (freshSteps s steps).Nodup := by
  induction steps using List.reverseRecOn with
  | nil => simp [freshSteps]
  | append_singleton steps last ih =>
    rw [freshSteps_snoc]
    split
    · exact ih
    · next hlast =>
      rw [Bool.or_eq_true, not_or, List.any_eq_true] at hlast
      refine List.nodup_append.2 ⟨ih, by simp, ?_⟩
      intro a ha b hb hab
      rw [List.mem_singleton] at hb
      exact hlast.2 ⟨a, ha, by rw [hab, hb]; exact Step.same_self last⟩

/-- Where one step was not started, something is left. -/
theorem freshSteps_ne_nil {steps : List Step} (h : step ∈ steps)
    (hs : s.wasDispatched step = false) : freshSteps s steps ≠ [] := by
  induction steps using List.reverseRecOn with
  | nil => simp at h
  | append_singleton steps last ih =>
    rw [freshSteps_snoc]
    rcases List.mem_append.1 h with h | h
    · split
      · exact ih h
      · simp
    · obtain rfl := List.mem_singleton.1 h
      split
      · next hany =>
        rw [hs, Bool.false_or, List.any_eq_true] at hany
        obtain ⟨other, ho, -⟩ := hany
        exact List.ne_nil_of_mem ho
      · simp

/-! ## The plan -/

theorem mem_nextSteps (h : step ∈ g.nextSteps (.ofEvents events)) :
    ¬ FailedIn events ∧ ¬ (Milestone.exited g.main).ReachedIn events ∧
      step ∈ g.wantedSteps (.ofEvents events) ∧
      (Summary.ofEvents events).wasDispatched step = false := by
  unfold nextSteps at h
  split at h
  · simp at h
  · next hgo =>
    rw [Bool.or_eq_true, not_or, Summary.hasFailed_ofEvents] at hgo
    have hexit : ¬ (Milestone.exited g.main).ReachedIn events := by
      rw [← reached_ofEvents]
      exact hgo.2
    exact ⟨hgo.1, hexit, mem_of_mem_freshSteps h⟩

/-- A step that is planned is allowed. -/
theorem allows_of_mem_nextSteps (hg : g.WellFormed) (h : step ∈ g.nextSteps (.ofEvents events)) :
    g.Allows events step := by
  obtain ⟨-, -, hwanted, -⟩ := mem_nextSteps h
  exact allows_of_mem_wantedSteps hg hwanted

/-- A step that is planned was not started before. -/
theorem not_started_of_mem_nextSteps (hg : g.WellFormed)
    (h : step ∈ g.nextSteps (.ofEvents events)) : .stepStarting step ∉ events := by
  have hteardown := (allows_of_mem_nextSteps hg h).isTeardown
  obtain ⟨-, -, -, hs⟩ := mem_nextSteps h
  rw [← Summary.wasDispatched_ofEvents hteardown, hs]
  simp

/-- Two steps of a plan do not share a milestone. -/
theorem eq_of_mem_nextSteps (hg : g.WellFormed) {other : Step}
    (h : step ∈ g.nextSteps (.ofEvents events)) (h' : other ∈ g.nextSteps (.ofEvents events))
    (hm : step.milestone = other.milestone) : step = other := by
  have ha := allows_of_mem_nextSteps hg h
  have ha' := allows_of_mem_nextSteps hg h'
  obtain ⟨-, -, hwanted, -⟩ := mem_nextSteps h
  obtain ⟨-, -, hwanted', -⟩ := mem_nextSteps h'
  rcases wanted_cases hwanted with ⟨hp, -⟩ | ⟨k, hk, hstep⟩
  · exact ha.eq_of_isPreparation ha' hp hm
  rcases wanted_cases hwanted' with ⟨hp', -⟩ | ⟨k', hk', hstep'⟩
  · exact (ha'.eq_of_isPreparation ha hp' hm.symm).symm
  -- Both are stages, and of one container, because a milestone knows its container.
  have hc := container?_of_containerStep? hstep
  have hc' := container?_of_containerStep? hstep'
  rw [← Step.container?_milestone, hm, Step.container?_milestone, hc', Option.some.injEq] at hc
  obtain rfl := eq_of_name_eq hg hk' hk hc
  exact Option.some.inj (hstep.symm.trans hstep')

theorem nodup_nextSteps : (g.nextSteps s).Nodup := by
  unfold nextSteps
  split
  · simp
  · exact nodup_freshSteps _

end Graph

namespace Machine

variable {m : Machine} {events : List Event} {steps : List Step}

/-- A batch is the beginning of a plan that is not empty. -/
theorem next_dispatch (h : m.next events = .dispatch steps) :
    m.graph.nextSteps (.ofEvents events) ≠ [] ∧
      steps = m.limited (m.graph.nextSteps (.ofEvents events)) := by
  simp only [next] at h
  split at h
  · simp at h
  · split at h
    · simp at h
    · next hne => exact ⟨hne, (RunDecision.dispatch.inj h).symm⟩

/-- A run that stalls is not over, and nothing is planned. -/
theorem next_stalled (h : m.next events = .stalled) :
    m.result? (.ofEvents events) = none ∧ m.graph.nextSteps (.ofEvents events) = [] := by
  simp only [next] at h
  split at h
  · simp at h
  · next hresult =>
    split at h
    · next hnil => exact ⟨hresult, hnil⟩
    · simp at h

theorem next_finished {result : TaskResult} (h : m.next events = .finished result) :
    m.result? (.ofEvents events) = some result := by
  simp only [next] at h
  split at h
  · next hresult => rw [hresult, RunDecision.finished.inj h]
  · split at h <;> simp at h

theorem next_of_result? {result : TaskResult} (h : m.result? (.ofEvents events) = some result) :
    m.next events = .finished result := by
  simp only [next, h]

/-- A run that has failed is over. -/
theorem not_failedIn_of_result? (h : m.result? (.ofEvents events) = none) :
    ¬ FailedIn events := by
  intro hf
  unfold result? at h
  split at h
  · simp at h
  · rw [if_pos ((Summary.hasFailed_ofEvents events).2 hf)] at h
    simp at h

/-- A run that has not failed is over when the main container has exited, with its exit code. -/
theorem result?_of_not_failedIn (h : ¬ FailedIn events) :
    m.result? (.ofEvents events) =
      ((Summary.ofEvents events).exited.get? m.graph.main).map .succeeded := by
  have hinterrupted : ¬ (Summary.ofEvents events).interrupted = true := by
    rw [Summary.interrupted_ofEvents]
    intro hi
    exact h ⟨_, hi, rfl⟩
  unfold result?
  rw [if_neg hinterrupted, if_neg]
  rwa [Summary.hasFailed_ofEvents]

/-- An interruption counts before everything else. -/
theorem result?_eq_cancelled :
    m.result? (.ofEvents events) = some .cancelled ↔ .interrupted ∈ events := by
  rw [← Summary.interrupted_ofEvents]
  unfold result?
  by_cases hi : (Summary.ofEvents events).interrupted = true
  · simp [hi]
  · by_cases hf : (Summary.ofEvents events).hasFailed = true <;> simp [hi, hf]

/-- A failure counts before the exit of the main container. -/
theorem result?_eq_failed :
    m.result? (.ofEvents events) = some .failed ↔ .interrupted ∉ events ∧ FailedIn events := by
  rw [← Summary.interrupted_ofEvents, ← Summary.hasFailed_ofEvents]
  unfold result?
  by_cases hi : (Summary.ofEvents events).interrupted = true
  · simp [hi]
  · by_cases hf : (Summary.ofEvents events).hasFailed = true <;> simp [hi, hf]

theorem result?_eq_succeeded {exitCode : Int} :
    m.result? (.ofEvents events) = some (.succeeded exitCode) ↔
      ¬ FailedIn events ∧ (Summary.ofEvents events).exited.get? m.graph.main = some exitCode := by
  by_cases hf : FailedIn events
  · refine iff_of_false ?_ fun h => h.1 hf
    rw [← Summary.hasFailed_ofEvents] at hf
    unfold result?
    rw [if_pos hf]
    split <;> simp
  · rw [result?_of_not_failedIn hf]
    simp [hf]

theorem limited_sublist (m : Machine) (steps : List Step) : (m.limited steps).Sublist steps := by
  unfold limited
  split
  · exact .refl _
  · exact List.take_sublist _ _

/-- At least one step may always start. -/
theorem limited_ne_nil (m : Machine) {steps : List Step} (h : steps ≠ []) :
    m.limited steps ≠ [] := by
  unfold limited
  split
  · exact h
  · simp [List.take_eq_nil_iff, h]

end Machine

end Stevedore
