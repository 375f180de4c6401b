import Mathlib.Data.List.Dedup
import Stevedore.Proofs.Lifecycle

/-!
The run stage comes to its end.

It never stalls. Between two batches of a run that has not failed, every step that was started has
reached its milestone; so if all that the state calls for had been started, it would all be
reached. But then the containers are ready one after the other, each after those it waits for
(`Graph.stages_of_wanted_reached`), which is where it matters that nobody waits in a circle. In the
end the main container would have exited, and the run would be over.

It ends after a limited number of batches (`Graph.batchLimit`), since every batch starts something
and nothing is started twice. `EndsWithin` puts the two together for all that the steps of each
batch may do.
-/

namespace Stevedore

open Relation

namespace Graph

variable {g : Graph} {s : Summary} {k : Container}

/-! ## Where nothing is left to start -/

/-- A container has an image once its image step has succeeded. -/
theorem exists_image? (h : s.reached (g.imageStep k).milestone = true) :
    ∃ image, s.image? k = some image := by
  unfold imageStep at h
  unfold Summary.image?
  cases hi : k.image <;> rw [hi] at h <;> exact Option.isSome_iff_exists.1 h

/-- A container can be created once its image, the network and the caches are there and its
dependencies are ready. -/
theorem exists_containerStep?_of_not_created (hc : s.created.contains k.name = false)
    (himage : s.reached (g.imageStep k).milestone = true) (hnetwork : s.reached .network = true)
    (hcaches : s.reached .caches = true)
    (hd : ∀ d, g.WaitsFor k.name d → s.ready.contains d = true) :
    ∃ image network, g.containerStep? s k = some (.createContainer k.name image network) := by
  obtain ⟨image, himage⟩ := exists_image? himage
  obtain ⟨network, hnetwork⟩ := Option.isSome_iff_exists.1 hnetwork
  have hnone : s.created.get? k.name = none := by
    rw [SortedMap.contains] at hc
    simpa using hc
  have hcaches : s.cachesInitialised = true := hcaches
  have hready : (g.dependencies k.name).toList.all s.ready.contains = true :=
    List.all_eq_true.2 hd
  refine ⟨image, network, ?_⟩
  unfold containerStep?
  rw [hnone]
  simp [creationStep?, himage, hnetwork, hcaches, hready]

/-- A container whose stages are reached whenever they are called for has been through them if its
dependencies are ready. -/
theorem stages_of_dependencies (hall : ∀ step ∈ g.wantedSteps s, s.reached step.milestone = true)
    (hk : k ∈ g.containers) (hd : ∀ d, g.WaitsFor k.name d → s.ready.contains d = true) :
    ∀ x ∈ k.stages, s.reached x = true := by
  have hstage : ∀ step, g.containerStep? s k = some step → s.reached step.milestone = true := by
    intro step hstep
    exact hall step (mem_wantedSteps.2 (.inr (.inr ⟨k, hk, .inr hstep⟩)))
  have hcreated : s.created.contains k.name = true := by
    cases hc : s.created.contains k.name with
    | true => rfl
    | false =>
      have himage := hall _ (mem_wantedSteps.2 (.inr (.inr ⟨k, hk, .inl ⟨hc, rfl⟩⟩)))
      have hnetwork := hall .createNetwork (mem_wantedSteps.2 (.inl rfl))
      have hcaches := hall .initialiseCaches (mem_wantedSteps.2 (.inr (.inl rfl)))
      obtain ⟨image, network, hstep⟩ :=
        exists_containerStep?_of_not_created hc himage hnetwork hcaches hd
      exact hc.symm.trans (hstage _ hstep)
  obtain ⟨handle, hget⟩ := Option.isSome_iff_exists.1 hcreated
  have hstarted : s.started.contains k.name = true := by
    cases hs : s.started.contains k.name with
    | true => rfl
    | false =>
      have hstep : g.containerStep? s k = some (.startContainer k.name handle) := by
        simp [containerStep?, hget, hs]
      exact hs.symm.trans (hstage _ hstep)
  have hhealthy : s.healthy.contains k.name = true := by
    cases hh : s.healthy.contains k.name with
    | true => rfl
    | false =>
      have hstep : g.containerStep? s k = some (.awaitHealth k.name handle) := by
        simp [containerStep?, hget, hstarted, hh]
      exact hh.symm.trans (hstage _ hstep)
  have hready : s.ready.contains k.name = true := by
    cases hr : s.ready.contains k.name with
    | true => rfl
    | false =>
      have hstep : g.containerStep? s k = some (.runSetupCommands k.name handle) := by
        simp [containerStep?, hget, hstarted, hhealthy, hr]
      exact hr.symm.trans (hstage _ hstep)
  intro x hx
  simp only [Container.stages, List.mem_cons, List.not_mem_nil, or_false] at hx
  rcases hx with rfl | rfl | rfl | rfl
  · exact hcreated
  · exact hstarted
  · exact hhealthy
  · exact hready

/-- If whatever is called for has been reached, everybody has been through its stages. -/
theorem stages_of_wanted_reached (hg : g.WellFormed)
    (hall : ∀ step ∈ g.wantedSteps s, s.reached step.milestone = true) (hk : k ∈ g.containers) :
    ∀ x ∈ k.stages, s.reached x = true := by
  obtain ⟨rank, hrank⟩ := hg.ranked
  -- By induction on the rank: whoever is waited for stands lower.
  induction hn : rank k.name using Nat.strongRecOn generalizing k with
  | ind n ih =>
    refine stages_of_dependencies hall hk ?_
    intro d hd
    obtain ⟨k', hk', rfl⟩ := exists_container hg (mem_names.2 (hg.closed _ _ hd))
    exact ih _ (hn ▸ hrank _ _ hd) hk' rfl (.ready k'.name) (by simp [Container.stages])

/-- If whatever is called for has been reached, the main container has exited. -/
theorem exited_of_wanted_reached (hg : g.WellFormed)
    (hall : ∀ step ∈ g.wantedSteps s, s.reached step.milestone = true) :
    s.exited.contains g.main = true := by
  obtain ⟨k, hk, hname⟩ := exists_container hg (mem_names.2 hg.main_mem)
  have hstages := stages_of_wanted_reached hg hall hk
  have hstarted : s.started.contains k.name = true :=
    hstages (.started k.name) (by simp [Container.stages])
  have hhealthy : s.healthy.contains k.name = true :=
    hstages (.healthy k.name) (by simp [Container.stages])
  have hready : s.ready.contains k.name = true :=
    hstages (.ready k.name) (by simp [Container.stages])
  obtain ⟨handle, hget⟩ := Option.isSome_iff_exists.1
    (hstages (.created k.name) (by simp [Container.stages]))
  have hmain : g.isMain k.name = true := by simp [isMain, hname]
  have hstep : g.containerStep? s k = some (.runContainer k.name handle) := by
    simp [containerStep?, hget, hstarted, hhealthy, hready, hmain]
  rw [← hname]
  exact hall _ (mem_wantedSteps.2 (.inr (.inr ⟨k, hk, .inr hstep⟩)))

/-! ## How much there is to start -/

/-- All that the run stage is there to reach. -/
def milestones (g : Graph) : List Milestone :=
  [.network, .caches] ++ (g.containers.map g.imageStep).dedup.map Step.milestone ++
    g.containers.flatMap Container.stages ++ [.exited g.main]

/-- As many batches as the run stage can have. -/
def batchLimit (g : Graph) : Nat :=
  2 + (g.containers.map g.imageStep).dedup.length + 4 * g.containers.length + 1

theorem length_milestones (g : Graph) : g.milestones.length = g.batchLimit := by
  have hstages : ∀ ks : List Container, (ks.flatMap Container.stages).length = 4 * ks.length := by
    intro ks
    induction ks with
    | nil => rfl
    | cons k ks ih =>
      rw [List.flatMap_cons, List.length_append, ih, Container.stages]
      simp only [List.length_cons, List.length_nil]
      omega
  simp only [milestones, batchLimit, List.length_append, List.length_map, List.length_cons,
    List.length_nil, hstages]

/-- Whatever may be started is there to reach one of these. -/
theorem Allows.milestone_mem (hg : g.WellFormed) {events : List Event} {step : Step}
    (h : g.Allows events step) : step.milestone ∈ g.milestones := by
  have himage : ∀ k ∈ g.containers, g.imageStep k = step → step.milestone ∈ g.milestones := by
    rintro k hk rfl
    simp only [milestones, List.mem_append, List.mem_map, List.mem_dedup]
    exact .inl (.inl (.inr ⟨_, ⟨k, hk, rfl⟩, rfl⟩))
  have hstages : ∀ c, c ∈ g.names → ∀ x ∈ [Milestone.created c, .started c, .healthy c, .ready c],
      x ∈ g.milestones := by
    intro c hc x hx
    obtain ⟨k, hk, rfl⟩ := Graph.exists_container hg hc
    simp only [milestones, List.mem_append, List.mem_flatMap]
    exact .inl (.inr ⟨k, hk, hx⟩)
  cases step with
  | createNetwork | initialiseCaches => simp [milestones, Step.milestone]
  | buildImage | pullImage =>
    obtain ⟨k, hk, hi⟩ := h
    exact himage k hk hi
  | createContainer c =>
    obtain ⟨⟨k, hk, rfl, -⟩, -⟩ := h
    exact hstages k.name (name_mem_names hg hk) _ (by simp [Step.milestone])
  | startContainer c | awaitHealth c | runSetupCommands c =>
    exact hstages c h.1 _ (by simp [Step.milestone])
  | runContainer => simp [milestones, Step.milestone, h.1]
  | stopContainer | removeContainer | deleteFile | deleteDirectory | deleteNetwork => exact h.elim

end Graph

namespace Moment

variable {g : Graph} {m : Machine} {t u : Moment} {step : Step}

/-- There are no more batches than there is to start. -/
theorem Lawful.batches_le (hg : g.WellFormed) (h : Lawful g t) : t.batches ≤ g.batchLimit := by
  have hsub : (startedIn t.log ++ t.waiting).map Step.milestone ⊆ g.milestones := by
    intro k hk
    obtain ⟨step, hs, rfl⟩ := List.mem_map.1 hk
    exact (h.allowed step hs).milestone_mem hg
  have hle := h.once.length_le_of_subset hsub
  rw [List.length_map, List.length_append, g.length_milestones] at hle
  exact Nat.le_trans h.counted hle

/-- **The run stage never stalls.** -/
theorem Lawful.not_stalled (hg : m.graph.WellFormed) (h : Lawful m.graph t) (hi : t.IsIdle) :
    m.next t.log ≠ .stalled := by
  intro hstalled
  obtain ⟨hresult, hnil⟩ := Machine.next_stalled hstalled
  have hf := Machine.not_failedIn_of_result? hresult
  rw [Machine.result?_of_not_failedIn hf, Option.map_eq_none_iff] at hresult
  have hexited : (Summary.ofEvents t.log).exited.contains m.graph.main = false := by
    rw [SortedMap.contains, hresult]
    rfl
  have hfailed : (Summary.ofEvents t.log).hasFailed = false := by
    rw [Bool.eq_false_iff, ne_eq, Summary.hasFailed_ofEvents]
    exact hf
  have hfresh :
      Graph.freshSteps (.ofEvents t.log) (m.graph.wantedSteps (.ofEvents t.log)) = [] := by
    rw [Graph.nextSteps, hexited, hfailed] at hnil
    exact hnil
  have hall : ∀ step ∈ m.graph.wantedSteps (.ofEvents t.log),
      (Summary.ofEvents t.log).reached step.milestone = true := by
    intro step hs
    cases hd : (Summary.ofEvents t.log).wasDispatched step with
    | false => exact absurd hfresh (Graph.freshSteps_ne_nil hs hd)
    | true =>
      have hteardown := (Graph.allows_of_mem_wantedSteps hg hs).isTeardown
      have hstarted := (Summary.wasDispatched_ofEvents hteardown t.log).1 hd
      rw [Summary.reached_ofEvents]
      exact h.reachedIn_of_started hi hf (mem_startedIn.2 hstarted)
  rw [Graph.exited_of_wanted_reached hg hall] at hexited
  simp at hexited

/-! ## Runs in which every step succeeds -/

/-- Whether some step has ended without success. -/
def Spoilt (t : Moment) : Prop :=
  ∃ step ∈ startedIn t.log, step ∉ t.underWay ∧ ¬ step.milestone.ReachedIn t.log

/-- A step that has failed does not succeed later. -/
theorem Spoilt.move (h : Lawful g t) (hs : t.Spoilt) (hm : Move m t u) : u.Spoilt := by
  obtain ⟨step, hstarted, hnot, hr⟩ := hs
  refine ⟨step, ?_, ?_, ?_⟩
  · rcases hm.log_cases with hlog | ⟨e, hlog⟩
    · rwa [hlog]
    · rw [hlog, startedIn_append]
      exact List.mem_append_left _ hstarted
  · intro hu
    rcases hm.mem_underWay hu with hu | hw
    · exact hnot hu
    · exact h.not_started_of_waiting hw hstarted
  · rcases hm.log_cases with hlog | ⟨e, hlog⟩
    · rwa [hlog]
    · rw [hlog, Milestone.reachedIn_concat, not_or]
      refine ⟨hr, ?_⟩
      intro hk
      obtain ⟨other, ho, hmo⟩ := hm.underWay_of_milestone hlog hk
      exact hnot (h.eq_of_milestone_eq (h.started.subset ho) hstarted hmo ▸ ho)

/-- A step that ends by telling of nothing has failed. -/
theorem Lawful.spoilt_close (h : Lawful g t) {e : Event} (hs : step ∈ t.underWay)
    (hk : e.milestone? = none) : (t.close step e).Spoilt := by
  refine ⟨step, ?_, ?_, ?_⟩
  · rw [close_log, startedIn_append]
    exact List.mem_append_left _ (h.started.subset hs)
  · rw [close_underWay, h.nodup_underWay.mem_erase_iff]
    simp
  · rw [close_log, Milestone.reachedIn_concat, hk]
    simpa using h.not_reachedIn_of_underWay hs

/-- A run fails only if it is interrupted or some step fails. -/
theorem Reachable.cancelled_or_spoilt (hg : m.graph.WellFormed) (h : Reachable m t)
    (hf : FailedIn t.log) : t.cancelled = true ∨ t.Spoilt := by
  induction h with
  | refl => simp [FailedIn] at hf
  | @tail t u ht hm ih =>
    have hlawful := Reachable.lawful hg ht
    by_cases hold : FailedIn t.log
    · rcases ih hold with hc | hs
      · exact .inl (hm.cancelled hc)
      · exact .inr (hs.move hlawful hm)
    -- So what was posted last is a failure.
    have hnew : ∀ e, FailedIn (t.log ++ [e]) → e.isTaskFailure = true := by
      intro e he
      exact (failedIn_concat.1 he).resolve_left hold
    cases hm with
    | work inside =>
      cases inside with
      | announce => exact absurd (hnew _ hf) (by simp [Event.isTaskFailure])
      | report running own => exact absurd (hnew _ hf) (by simp [own.isTaskFailure])
      | finish running own =>
        rcases own with hs | hfail
        · exact absurd (hnew _ hf) (by simp [hs.isTaskFailure])
        · exact .inr (hlawful.spoilt_close running hfail.milestone?)
      | crash running => exact .inr (hlawful.spoilt_close running rfl)
    | cancel => exact .inl rfl
    | notice _ _ now => exact .inl now
    | check _ _ now => exact .inl now
    | pass | dispatch => exact absurd hf hold
    | stall idle _ decision => exact absurd decision (hlawful.not_stalled hg idle)

/-- A run that is not interrupted and whose steps all succeed has not failed. -/
theorem Reachable.not_failedIn (hg : m.graph.WellFormed) (h : Reachable m t)
    (hc : t.cancelled = false) (hall : ∀ step ∈ startedIn t.log, ∃ e ∈ t.log, step.Succeeds e) :
    ¬ FailedIn t.log := by
  intro hf
  rcases h.cancelled_or_spoilt hg hf with hcancelled | ⟨step, hs, -, hr⟩
  · rw [hc] at hcancelled
    simp at hcancelled
  · obtain ⟨e, he, hsucceeds⟩ := hall step hs
    exact hr ⟨e, he, hsucceeds.milestone?⟩

/-! ## The end -/

/-- Whether the run stage ends after at most so many more batches, whatever its steps post and in
whatever order, provided that each of them ends. -/
inductive EndsWithin (m : Machine) : Nat → Moment → Prop
  /-- It is over. If every step has succeeded, then with the exit code of the main container. -/
  | finished {n : Nat} {t : Moment} {result : TaskResult}
      (decision : m.next t.log = .finished result)
      (success : (∀ step ∈ startedIn t.log, ∃ e ∈ t.log, step.Succeeds e) →
        ∃ exitCode, result = .succeeded exitCode ∧
          .containerExited m.graph.main exitCode ∈ t.log) : EndsWithin m n t
  /-- There is a batch, of steps that were never started before, and the run ends from wherever
  that leads when all of them have ended. -/
  | batch {n : Nat} {t : Moment} {steps : List Step}
      (decision : m.next t.log = .dispatch steps) (some : steps ≠ []) (distinct : steps.Nodup)
      (fresh : ∀ step ∈ steps, .stepStarting step ∉ t.log)
      (next : ∀ u, ReflTransGen Work (t.begin steps) u → u.IsIdle → EndsWithin m n u) :
      EndsWithin m (n + 1) t

/-- If every step has succeeded, the task ends with the exit code of the main container. -/
theorem Reachable.succeeded_of_finished (hg : m.graph.WellFormed) (h : Reachable m t)
    (hc : t.cancelled = false) {result : TaskResult} (hd : m.next t.log = .finished result)
    (hall : ∀ step ∈ startedIn t.log, ∃ e ∈ t.log, step.Succeeds e) :
    ∃ exitCode, result = .succeeded exitCode ∧
      .containerExited m.graph.main exitCode ∈ t.log := by
  have hresult := Machine.next_finished hd
  rw [Machine.result?_of_not_failedIn (h.not_failedIn hg hc hall), Option.map_eq_some_iff]
    at hresult
  obtain ⟨exitCode, hget, rfl⟩ := hresult
  exact ⟨exitCode, rfl, Summary.mem_of_shows hget⟩

/-- The run stage ends once no more batches are left than it can still have. -/
theorem Reachable.endsWithin (hg : m.graph.WellFormed) {n : Nat} (h : Reachable m t)
    (hi : t.IsIdle) (hc : t.cancelled = false) (htop : t.deciding = false)
    (hn : m.graph.batchLimit ≤ t.batches + n) : EndsWithin m n t := by
  induction n using Nat.strongRecOn generalizing t with
  | ind n ih =>
    have hlawful := h.lawful hg
    cases hd : m.next t.log with
    | finished result => exact .finished hd (h.succeeded_of_finished hg hc hd)
    | stalled => exact absurd hd (hlawful.not_stalled hg hi)
    | dispatch steps =>
      have hbegin : Reachable m (t.begin steps) :=
        (h.move (.pass hi htop (.inl hc))).move (.dispatch hi rfl hd)
      have hbatches : t.batches + 1 ≤ m.graph.batchLimit := (hbegin.lawful hg).batches_le hg
      obtain ⟨n, rfl⟩ : ∃ left, n = left + 1 := ⟨n - 1, by omega⟩
      obtain ⟨hsome, rfl⟩ := Machine.next_dispatch hd
      have hsub := m.limited_sublist (m.graph.nextSteps (.ofEvents t.log))
      refine .batch hd (m.limited_ne_nil hsome) (Graph.nodup_nextSteps.sublist hsub) ?_ ?_
      · intro step hs
        exact Graph.not_started_of_mem_nextSteps hg (hsub.subset hs)
      · intro u hu hidle
        obtain ⟨hcancelled, hdeciding, hcount⟩ := loop_of_work hu
        have hreach : Reachable m u := hbegin.works hu
        refine ih n (Nat.lt_succ_self n) hreach hidle (hcancelled.trans hc) hdeciding ?_
        have hb : u.batches = t.batches + 1 := hcount
        omega

/-- **The run stage of every task comes to its end**, after at most as many batches as the graph
has steps to start. -/
theorem endsWithin_batchLimit {project : Project} {task : String}
    (hresolve : Graph.resolve project task = .ok m.graph) :
    EndsWithin m m.graph.batchLimit {} :=
  Reachable.start.endsWithin (Graph.wellFormed_of_resolve hresolve) ⟨rfl, rfl⟩ rfl rfl
    (Nat.le_add_left ..)

/-- The shop opens within seventeen batches. -/
theorem shop_opens : EndsWithin Shop.machine 17 {} := by
  have hlimit : Shop.machine.graph.batchLimit = 17 := by decide +kernel
  rw [← hlimit]
  exact endsWithin_batchLimit Shop.resolve_project

/-! ## Enough rounds -/

variable {σ : Type} {env : Surroundings σ} {start : Beginning σ}

theorem batchLimit_lt_roundLimit (g : Graph) : g.batchLimit < g.roundLimit := by
  have hsize : g.containers.length = g.nodes.size := by
    simp [Graph.containers, SortedMap.values, SortedMap.size]
  have himages := (List.dedup_sublist (g.containers.map g.imageStep)).length_le
  rw [List.length_map] at himages
  unfold Graph.batchLimit Graph.roundLimit
  omega

/-- **The rounds that a run is given are enough**: if every step comes to an end, the run stage
does. -/
theorem Stands.exists_ended (hg : m.graph.WellFormed) (ho : start.Orderly) (he : start.Ends)
    {rounds : Nat} {noted : Bool} {batches : Nat} {s : Situation σ}
    (h : Stands m noted batches [] s.log) (hrounds : m.graph.batchLimit < batches + rounds) :
    ∃ result s', Execution.runStage env start m rounds noted s = .ended result s' := by
  induction rounds generalizing noted batches s with
  | zero =>
    obtain ⟨underWay, -, hreach⟩ := h
    have hle := (hreach.lawful hg).batches_le hg
    dsimp only at hle
    omega
  | succ rounds ih =>
    have hreach := h.decides env
    unfold Execution.runStage
    generalize Execution.noteInterruption env noted s = looked at hreach
    obtain ⟨noted, s⟩ := looked
    dsimp only at hreach ⊢
    split
    · exact ⟨_, _, rfl⟩
    · next hstalled => exact absurd hstalled ((hreach.lawful hg).not_stalled hg ⟨rfl, rfl⟩)
    · next steps hnext =>
      cases hb : Batch.run env start .run steps s with
      | mk s₁ b =>
        have hstuck := not_stuck_of_ends env he .run steps s
        rw [hb] at hstuck
        dsimp only at hstuck ⊢
        rw [if_neg (by simp [hstuck])]
        exact ih (stands_after_round ho hreach hnext hb hstuck) (by omega)

/-- So the limit on the rounds of a run never shows. -/
theorem exists_ended_of_roundLimit (hg : m.graph.WellFormed) (ho : start.Orderly)
    (he : start.Ends) (w : σ) :
    ∃ result s', Execution.runStage env start m m.graph.roundLimit false ⟨w, []⟩ =
      .ended result s' := by
  refine (stands_start m).exists_ended hg ho he ?_
  rw [Nat.zero_add]
  exact batchLimit_lt_roundLimit m.graph

end Moment

end Stevedore
