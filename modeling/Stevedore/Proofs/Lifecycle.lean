import Stevedore.Proofs.Gating
import Stevedore.Proofs.Once

/-!
The stages of one container.

`Graph.lifecycle` is the order of them: the image if it is built, creation, start, health, setup
commands, and for the main container its run. A step that starts finds the stage just before its
own reached. Everything further back is reached too, because what was reached was reached by a
step that was started under the same condition (`Lawful.reached_of_reached_last`). So the steps of
a container are started in the order of its lifecycle (`Reachable.stages_in_order`), and as a step
that is under way has not reached its milestone, no other step of its container can be under way
beside it (`Lawful.eq_of_container?_eq`).
-/

namespace Stevedore

/-- What is reached for the container alone before it is created. -/
def Container.imageStages (k : Container) : List Milestone :=
  match k.image with
  | .build .. => [.built k.name]
  | .pull _ => []

/-- What a container goes through until it is ready. -/
def Container.stages (k : Container) : List Milestone :=
  [.created k.name, .started k.name, .healthy k.name, .ready k.name]

namespace Graph

/-- The milestones of a container, in order. -/
def lifecycle (g : Graph) (k : Container) : List Milestone :=
  k.imageStages ++ k.stages ++ if g.isMain k.name then [.exited k.name] else []

variable {g : Graph} {k : Container} {events : List Event} {step : Step}

theorem nodup_lifecycle (g : Graph) (k : Container) : (g.lifecycle k).Nodup := by
  unfold lifecycle Container.imageStages Container.stages
  cases k.image <;> cases g.isMain k.name <;> simp

theorem container?_of_mem_lifecycle {s : Milestone} (h : s ∈ g.lifecycle k) :
    s.container? = some k.name := by
  simp only [lifecycle, Container.imageStages, Container.stages, List.mem_append, List.mem_cons,
    List.not_mem_nil, or_false] at h
  rcases h with (h | rfl | rfl | rfl | rfl) | h
  · cases hk : k.image <;> simp only [hk, List.mem_singleton, List.not_mem_nil] at h
    rw [h]
    rfl
  · rfl
  · rfl
  · rfl
  · rfl
  · split at h
    · rw [List.mem_singleton.1 h]
      rfl
    · simp at h

/-- The steps that are allowed act on containers of the graph. -/
theorem Allows.exists_container (hg : g.WellFormed) (h : g.Allows events step) {c : String}
    (hc : step.container? = some c) : ∃ k ∈ g.containers, k.name = c := by
  cases step <;> simp only [Step.container?, Option.some.injEq, reduceCtorEq] at hc <;> subst hc
  case buildImage c tags =>
    obtain ⟨k, hk, hi⟩ := h
    refine ⟨k, hk, ?_⟩
    unfold imageStep at hi
    split at hi
    · exact (Step.buildImage.inj hi).1
    · simp at hi
  case createContainer =>
    obtain ⟨⟨k, hk, hname, -⟩, -⟩ := h
    exact ⟨k, hk, hname⟩
  case runContainer =>
    exact exists_container hg (h.1 ▸ mem_names.2 hg.main_mem)
  case stopContainer => exact h.elim
  case removeContainer => exact h.elim
  all_goals exact exists_container hg h.1

/-- A step that is allowed has its place in the lifecycle, and what stands just before that place
has been reached. -/
theorem Allows.place_in_lifecycle (hg : g.WellFormed) (h : g.Allows events step)
    (hk : k ∈ g.containers) (hc : step.container? = some k.name) :
    ∃ earlier, earlier ++ [step.milestone] <+: g.lifecycle k ∧
      ∀ s ∈ earlier.getLast?, s.ReachedIn events := by
  cases step <;> simp only [Step.container?, Option.some.injEq, reduceCtorEq] at hc <;> subst hc
  case buildImage tags =>
    obtain ⟨k', hk', hi⟩ := h
    unfold imageStep at hi
    split at hi
    · next hbuild =>
      obtain rfl := eq_of_name_eq hg hk' hk (Step.buildImage.inj hi).1
      refine ⟨[], ?_, by simp⟩
      simp [lifecycle, Container.imageStages, hbuild, Step.milestone]
    · simp at hi
  case createContainer image network =>
    obtain ⟨⟨k', hk', hname, himage⟩, -⟩ := h
    obtain rfl := eq_of_name_eq hg hk' hk hname
    refine ⟨k'.imageStages, by simp [lifecycle, Container.stages, Step.milestone], ?_⟩
    unfold Container.imageEvent at himage
    unfold Container.imageStages
    cases hi : k'.image with
    | pull reference => simp
    | build =>
      rw [hi] at himage
      simpa using ⟨_, himage, rfl⟩
  case startContainer handle =>
    refine ⟨k.imageStages ++ [.created k.name],
      by simp [lifecycle, Container.stages, Step.milestone], ?_⟩
    simpa using ⟨_, h.2, rfl⟩
  case awaitHealth handle =>
    refine ⟨k.imageStages ++ [.created k.name, .started k.name],
      by simp [lifecycle, Container.stages, Step.milestone], ?_⟩
    simpa using ⟨_, h.2.2, rfl⟩
  case runSetupCommands handle =>
    refine ⟨k.imageStages ++ [.created k.name, .started k.name, .healthy k.name],
      by simp [lifecycle, Container.stages, Step.milestone], ?_⟩
    simpa using ⟨_, h.2.2, rfl⟩
  case runContainer handle =>
    have hmain : g.isMain k.name = true := by simp [isMain, h.1]
    refine ⟨k.imageStages ++ k.stages, by simp [lifecycle, Step.milestone, hmain], ?_⟩
    simpa [Container.stages] using ⟨_, h.2.2, rfl⟩
  case stopContainer => exact h.elim
  case removeContainer => exact h.elim

end Graph

/-! ## Beginnings of a list without repetitions -/

section Beginnings

variable {α : Type} {whole l l' : List α} {x y : α}

theorem not_mem_of_isPrefix_concat (hn : whole.Nodup) (h : l ++ [x] <+: whole) : x ∉ l := by
  have hl := hn.sublist h.sublist
  rw [List.nodup_append] at hl
  intro hx
  exact hl.2.2 x hx x (List.mem_singleton_self x) rfl

/-- Two places of a list are the same, or one stands before the other. -/
theorem eq_or_mem_of_isPrefix_concat (h : l ++ [x] <+: whole) (h' : l' ++ [y] <+: whole) :
    l ++ [x] = l' ++ [y] ∨ x ∈ l' ∨ y ∈ l := by
  rcases List.prefix_or_prefix_of_prefix h h' with hp | hp
  · rcases List.prefix_concat_iff.1 hp with heq | hp
    · exact .inl heq
    · exact .inr (.inl (hp.subset (by simp)))
  · rcases List.prefix_concat_iff.1 hp with heq | hp
    · exact .inl heq.symm
    · exact .inr (.inr (hp.subset (by simp)))

theorem eq_of_isPrefix_concat (hn : whole.Nodup) (h : l ++ [x] <+: whole)
    (h' : l' ++ [x] <+: whole) : l = l' := by
  rcases eq_or_mem_of_isPrefix_concat h h' with heq | hx | hx
  · exact (List.append_inj' heq rfl).1
  · exact absurd hx (not_mem_of_isPrefix_concat hn h')
  · exact absurd hx (not_mem_of_isPrefix_concat hn h)

/-- A beginning may be continued by what comes next in the list. -/
theorem isPrefix_concat (hn : whole.Nodup) (hl : l <+: whole) (hx : l' ++ [x] <+: whole)
    (hsub : l' ⊆ l) (hnew : x ∉ l) : l ++ [x] <+: whole := by
  have heq : l = l' := by
    rcases List.prefix_or_prefix_of_prefix hl hx with hp | hp
    · rcases List.prefix_concat_iff.1 hp with rfl | hp
      · simp at hnew
      · have hn' : l'.Nodup := hn.sublist ((List.prefix_append l' [x]).trans hx).sublist
        exact hp.eq_of_length_le (hn'.length_le_of_subset hsub)
    · exact absurd (hp.subset (by simp)) hnew
  rw [heq]
  exact hx

end Beginnings

namespace Moment

/-- The stages of a container that were started, in order. -/
def stagesIn (events : List Event) (c : String) : List Milestone :=
  ((startedIn events).filter fun step => step.container? = some c).map Step.milestone

variable {g : Graph} {m : Machine} {t : Moment} {k : Container}

theorem stagesIn_append (l r : List Event) (c : String) :
    stagesIn (l ++ r) c = stagesIn l c ++ stagesIn r c := by
  simp [stagesIn]

theorem mem_stagesIn {events : List Event} {c : String} {s : Milestone} :
    s ∈ stagesIn events c ↔
      ∃ step ∈ startedIn events, step.container? = some c ∧ step.milestone = s := by
  simp [stagesIn, and_assoc]

/-- Where the last of some first stages has been reached, all of them have been. -/
theorem Lawful.reached_of_reached_last (hg : g.WellFormed) (h : Lawful g t)
    (hk : k ∈ g.containers) {stages : List Milestone} (hp : stages <+: g.lifecycle k)
    (hlast : ∀ s ∈ stages.getLast?, s.ReachedIn t.log) : ∀ s ∈ stages, s.ReachedIn t.log := by
  induction stages using List.reverseRecOn with
  | nil => simp
  | append_singleton stages last ih =>
    have hr : last.ReachedIn t.log := hlast last (by simp)
    obtain ⟨step, -, hm, ha⟩ := h.allows_of_reachedIn hr
    have hc : step.container? = some k.name := by
      rw [← Step.container?_milestone, hm]
      exact Graph.container?_of_mem_lifecycle (hp.subset (by simp))
    -- The step that reached the last stage found the one before it reached.
    obtain ⟨earlier, he, hbefore⟩ := ha.place_in_lifecycle hg hk hc
    rw [hm] at he
    obtain rfl := eq_of_isPrefix_concat (g.nodup_lifecycle k) he hp
    intro s hs
    rcases List.mem_append.1 hs with hs | hs
    · exact ih ((List.prefix_append _ _).trans hp) hbefore s hs
    · rw [List.mem_singleton.1 hs]
      exact hr

/-- A step that is allowed finds all stages before its own reached. -/
theorem Lawful.earlier_reached (hg : g.WellFormed) (h : Lawful g t) (hk : k ∈ g.containers)
    {step : Step} (ha : g.Allows t.log step) (hc : step.container? = some k.name) :
    ∃ earlier, earlier ++ [step.milestone] <+: g.lifecycle k ∧
      ∀ s ∈ earlier, s.ReachedIn t.log := by
  obtain ⟨earlier, he, hlast⟩ := ha.place_in_lifecycle hg hk hc
  exact ⟨earlier, he,
    h.reached_of_reached_last hg hk ((List.prefix_append _ _).trans he) hlast⟩

/-- **The steps of a container are started in the order of its stages.** -/
theorem Reachable.stages_in_order (hg : m.graph.WellFormed) (h : Reachable m t)
    (hk : k ∈ m.graph.containers) : stagesIn t.log k.name <+: m.graph.lifecycle k := by
  induction h with
  | refl => exact List.nil_prefix
  | @tail t u ht hm ih =>
    rcases hm.log_cases with hlog | ⟨e, hlog⟩
    · rwa [hlog]
    rw [hlog, stagesIn_append]
    cases he : e.startedStep? with
    | none =>
      have hnone : stagesIn [e] k.name = [] := by
        simp [stagesIn, startedIn_singleton_of_none he]
      rw [hnone, List.append_nil]
      exact ih
    | some step =>
      obtain rfl : e = .stepStarting step := by
        cases e <;> simp only [Event.startedStep?, Option.some.injEq, reduceCtorEq] at he
        rw [he]
      by_cases hc : step.container? = some k.name
      · obtain ⟨rest, hw⟩ := hm.waiting_of_stepStarting hlog
        have hlawful := Reachable.lawful hg ht
        have hmem : step ∈ t.waiting := by simp [hw]
        obtain ⟨earlier, hp, hreached⟩ := hlawful.earlier_reached hg hk
          (hlawful.allowed step (List.mem_append_right _ hmem)) hc
        have hone : stagesIn [.stepStarting step] k.name = [step.milestone] := by
          simp [stagesIn, hc]
        rw [hone]
        refine isPrefix_concat (m.graph.nodup_lifecycle k) ih hp ?_ ?_
        · intro s hs
          obtain ⟨other, ho, hmo, -⟩ := hlawful.earned s (hreached s hs)
          refine mem_stagesIn.2 ⟨other, ho, ?_, hmo⟩
          rw [← Step.container?_milestone, hmo]
          exact Graph.container?_of_mem_lifecycle (hp.subset (List.mem_append_left _ hs))
        · intro hs
          obtain ⟨other, ho, -, hmo⟩ := mem_stagesIn.1 hs
          have hd := List.disjoint_of_nodup_append (List.map_append ▸ hlawful.once)
          exact hd (List.mem_map_of_mem ho) (hmo ▸ List.mem_map_of_mem hmem)
      · have hnone : stagesIn [.stepStarting step] k.name = [] := by
          simp [stagesIn, hc]
        rw [hnone, List.append_nil]
        exact ih

/-- No two steps of one container are under way at the same time. -/
theorem Lawful.eq_of_container?_eq (hg : g.WellFormed) (h : Lawful g t) {a b : Step} {c : String}
    (ha : a ∈ t.underWay) (hb : b ∈ t.underWay) (hca : a.container? = some c)
    (hcb : b.container? = some c) : a = b := by
  have hallowed : ∀ step ∈ t.underWay, g.Allows t.log step := by
    intro step hs
    exact h.allowed step (List.mem_append_left _ (h.started.subset hs))
  obtain ⟨k, hk, rfl⟩ := (hallowed a ha).exists_container hg hca
  obtain ⟨before, hpa, hra⟩ := h.earlier_reached hg hk (hallowed a ha) hca
  obtain ⟨before', hpb, hrb⟩ := h.earlier_reached hg hk (hallowed b hb) hcb
  rcases eq_or_mem_of_isPrefix_concat hpa hpb with heq | hmem | hmem
  · have hm : a.milestone = b.milestone := by
      simpa using (List.append_inj' heq rfl).2
    exact h.eq_of_milestone_eq (h.started.subset ha) (h.started.subset hb) hm
  · exact absurd (hrb _ hmem) (h.not_reachedIn_of_underWay ha)
  · exact absurd (hra _ hmem) (h.not_reachedIn_of_underWay hb)

/-! ## The run of the main container -/

/-- Once the main container is ready, everybody is. -/
theorem Lawful.all_ready (hg : g.WellFormed) (h : Lawful g t)
    (hmain : .containerReady g.main ∈ t.log) {d : String} (hd : d ∈ g.names) :
    .containerReady d ∈ t.log := by
  obtain ⟨handle, hc⟩ := h.created_of_ready hmain
  rcases Relation.reflTransGen_iff_eq_or_transGen.1 (hg.rooted d (Graph.mem_names.1 hd)) with
    rfl | hchain
  · exact hmain
  · exact h.ready_of_transGen (fun b hb => h.ready_of_created hc hb) hchain

/-- What is planned between two batches has not been reached. -/
theorem Lawful.not_reachedIn_of_planned (hg : g.WellFormed) (h : Lawful g t) (hi : t.IsIdle)
    {step : Step} (hs : step ∈ g.nextSteps (.ofEvents t.log)) :
    ¬ step.milestone.ReachedIn t.log := by
  intro hr
  obtain ⟨old, hold, hm, -⟩ := h.earned _ hr
  exact h.milestone_ne_of_planned hg hi hold hs hm

/-- Whoever is ready has been through everything but its run. -/
theorem Lawful.reached_of_ready (hg : g.WellFormed) (h : Lawful g t) (hk : k ∈ g.containers)
    (hr : .containerReady k.name ∈ t.log) : ∀ s ∈ k.stages, s.ReachedIn t.log := by
  have hp : k.imageStages ++ k.stages <+: g.lifecycle k := List.prefix_append _ _
  have hall := h.reached_of_reached_last hg hk hp
    (by simpa [Container.stages] using ⟨_, hr, rfl⟩)
  intro s hs
  exact hall s (List.mem_append_right _ hs)

/-- Once the main container is ready, all has been reached that any step may be started for, but
its run. -/
theorem Lawful.reached_of_main_ready (hg : g.WellFormed) (h : Lawful g t)
    (hmain : .containerReady g.main ∈ t.log) {events : List Event} {step : Step}
    (ha : g.Allows events step) :
    step.milestone.ReachedIn t.log ∨ step.milestone = .exited g.main := by
  have hready : ∀ k ∈ g.containers, .containerReady k.name ∈ t.log := fun k hk =>
    h.all_ready hg hmain (Graph.name_mem_names hg hk)
  have hstages : ∀ c ∈ g.names, ∀ s ∈ [Milestone.created c, .started c, .healthy c, .ready c],
      s.ReachedIn t.log := by
    intro c hc
    obtain ⟨k, hk, rfl⟩ := Graph.exists_container hg hc
    exact h.reached_of_ready hg hk (hready k hk)
  have himage : ∀ k ∈ g.containers, (g.imageStep k).milestone.ReachedIn t.log := by
    intro k hk
    obtain ⟨handle, hcreated⟩ := h.created_of_ready (hready k hk)
    obtain ⟨image, -, ⟨k', hk', hname, htold⟩, -⟩ := h.allows_of_created hcreated
    obtain rfl := Graph.eq_of_name_eq hg hk' hk hname
    exact ⟨_, htold, k'.milestone?_imageEvent g image⟩
  obtain ⟨handle, hcreated⟩ := h.created_of_ready hmain
  obtain ⟨_, _, -, hnetwork, hcaches, -⟩ := h.allows_of_created hcreated
  cases step with
  | createNetwork => exact .inl ⟨_, hnetwork, rfl⟩
  | initialiseCaches => exact .inl ⟨_, hcaches, rfl⟩
  | buildImage | pullImage =>
    obtain ⟨k, hk, hi⟩ := ha
    exact .inl (hi ▸ himage k hk)
  | createContainer =>
    obtain ⟨⟨k, hk, rfl, -⟩, -⟩ := ha
    exact .inl (hstages k.name (Graph.name_mem_names hg hk) _ (by simp [Step.milestone]))
  | startContainer c | awaitHealth c | runSetupCommands c =>
    exact .inl (hstages c ha.1 _ (by simp [Step.milestone]))
  | runContainer => exact .inr (congrArg Milestone.exited ha.1)
  | stopContainer | removeContainer | deleteFile | deleteDirectory | deleteNetwork => exact ha.elim

/-- When the run of the main container is planned, nothing else is. -/
theorem Lawful.eq_runContainer (hg : g.WellFormed) (h : Lawful g t) (hi : t.IsIdle) {c : String}
    {handle : Handle} (hrun : .runContainer c handle ∈ g.nextSteps (.ofEvents t.log))
    {step : Step} (hs : step ∈ g.nextSteps (.ofEvents t.log)) :
    step = .runContainer c handle := by
  obtain ⟨rfl, -, hready⟩ := Graph.allows_of_mem_nextSteps hg hrun
  have ha := Graph.allows_of_mem_nextSteps hg hs
  rcases h.reached_of_main_ready hg hready ha with hr | hm
  · exact absurd hr (h.not_reachedIn_of_planned hg hi hs)
  · exact Graph.eq_of_mem_nextSteps hg hs hrun hm

/-- So the run of the main container is a batch by itself. -/
theorem Lawful.batch_of_runContainer (hg : m.graph.WellFormed) (h : Lawful m.graph t)
    (hi : t.IsIdle) {steps : List Step} (hd : m.next t.log = .dispatch steps) {c : String}
    {handle : Handle} (hrun : .runContainer c handle ∈ steps) :
    steps = [.runContainer c handle] := by
  obtain ⟨-, rfl⟩ := Machine.next_dispatch hd
  have hsub := m.limited_sublist (m.graph.nextSteps (.ofEvents t.log))
  have hplan : m.graph.nextSteps (.ofEvents t.log) = [.runContainer c handle] := by
    refine List.perm_singleton.1 ((List.perm_ext_iff_of_nodup Graph.nodup_nextSteps
      (List.nodup_singleton _)).2 ?_)
    intro step
    rw [List.mem_singleton]
    constructor
    · exact h.eq_runContainer hg hi (hsub.subset hrun)
    · rintro rfl
      exact hsub.subset hrun
  rw [hplan] at hsub hrun ⊢
  rcases List.sublist_singleton.1 hsub with hnil | hone
  · rw [hnil] at hrun
    simp at hrun
  · exact hone

/-! ## All of it -/

/-- What is true of the stages of all containers. -/
structure InStages (m : Machine) (t : Moment) : Prop where
  /-- The steps of a container start in the order of its stages. -/
  order : ∀ k ∈ m.graph.containers, stagesIn t.log k.name <+: m.graph.lifecycle k
  /-- Each starts when the stage before it has succeeded, with the handle of its container. -/
  allowed : ∀ before step after, t.log = before ++ .stepStarting step :: after →
    m.graph.Allows before step
  /-- There is one handle for each container. -/
  handle : ∀ c handle handle', .containerCreated c handle ∈ t.log →
    .containerCreated c handle' ∈ t.log → handle = handle'
  /-- No two steps of a container are under way. -/
  alone : t.underWay.Pairwise fun a b => ∀ c, a.container? = some c → b.container? ≠ some c
  /-- Only the main container is run, when everybody is ready, in a batch by itself. -/
  run : ∀ steps c handle, t.IsIdle → m.next t.log = .dispatch steps →
    .runContainer c handle ∈ steps → c = m.graph.main ∧
      (∀ d ∈ m.graph.names, .containerReady d ∈ t.log) ∧ steps = [.runContainer c handle]

/-- **Every container goes through its stages in order**, one step at a time, and the main
container is run at the end. -/
theorem inStages_of_reachable {project : Project} {task : String}
    (hresolve : Graph.resolve project task = .ok m.graph) (hreach : Reachable m t) :
    InStages m t := by
  have hg := Graph.wellFormed_of_resolve hresolve
  have h := hreach.lawful hg
  refine ⟨?_, ?_, ?_, ?_, ?_⟩
  · intro k hk
    exact hreach.stages_in_order hg hk
  · intro before step after hlog
    exact hreach.allows hg hlog
  · intro c handle handle' hc hc'
    exact hreach.handle_unique hg hc hc'
  · refine h.nodup_underWay.pairwise_of_forall_ne ?_
    intro a ha b hb hne c hca hcb
    exact hne (h.eq_of_container?_eq hg ha hb hca hcb)
  · intro steps c handle hi hd hrun
    have hplanned : .runContainer c handle ∈ m.graph.nextSteps (.ofEvents t.log) := by
      obtain ⟨-, rfl⟩ := Machine.next_dispatch hd
      exact (m.limited_sublist _).subset hrun
    obtain ⟨rfl, -, hready⟩ := Graph.allows_of_mem_nextSteps hg hplanned
    refine ⟨rfl, ?_, h.batch_of_runContainer hg hi hd hrun⟩
    intro d hd
    exact h.all_ready hg hready hd

/-- The shop opens in stages. -/
theorem shop_opens_in_stages :
    ∃ t, Reachable Shop.machine t ∧ t.log = Shop.log ∧ InStages Shop.machine t := by
  obtain ⟨t, ht, hlog, -⟩ := Shop.reachable_log
  exact ⟨t, ht, hlog, inStages_of_reachable Shop.resolve_project ht⟩

end Moment

end Stevedore
