import Stevedore.Proofs.AnyOrder
import Stevedore.Proofs.Interruption

/-!
The schedule of a run in which every step succeeds makes no difference in the end.

How many steps may run at once, and in which order their events come in, decides on the batches: two
runs of a task may not have a single batch in common. But the image, the network and the handle that
a step carries were told by earlier steps. So if every step tells the same in both runs, then the
preparations tell the same, hence containers are created by the same steps, and so on through all
stages (`Steady.eq_of_milestone_eq`). And a run only succeeds once everything has been reached that
a step may be started for (`Lawful.reached_of_exited`). So two runs that are over have started the
same steps, and their events are interleavings of the same lists (`Plays.exists_interleaves`).

A run with arbitrary interleavings is followed by one in which all steps of a batch are announced
and then end one after the other (`Plays.exists_steady`). The two are alike, and the second one
goes through reachable moments.
-/

namespace Stevedore

/-- Whether a run has these events after so many batches, if every step posts what it is said to.
Each step keeps to its own order, and nothing else is known about the order. -/
inductive Machine.Plays (m : Machine) (told : Step → List Event) : Nat → List Event → Prop
  | start : Plays m told 0 []
  | batch {n : Nat} {log posted : List Event} {steps : List Step} (before : Plays m told n log)
      (decision : m.next log = .dispatch steps)
      (interleaved : Interleaves (steps.map (Step.posting told)) posted) :
      Plays m told (n + 1) (log ++ posted)

/-- Whether two runs have come to the same. -/
structure Graph.EndsAlike (g : Graph) (told : Step → List Event) (log log' : List Event)
    (result result' : TaskResult) : Prop where
  result : result = result'
  started : (startedIn log).Perm (startedIn log')
  /-- What is to be cleaned up is the same up to the spelling of temporary paths, -/
  plan : (g.teardownPlan (.ofEvents log)).Same (g.teardownPlan (.ofEvents log'))
  /-- and in this too, if no path is told first in two spellings by two of the steps. -/
  plan_spelt : (∀ step ∈ startedIn log, ∀ other ∈ startedIn log,
      AgreeOnPaths [] (told step) (told other)) →
    g.teardownPlan (.ofEvents log) = g.teardownPlan (.ofEvents log')

/-- Whether all runs of a graph come to the same, whatever the schedule, if every step posts what it
is said to. -/
structure Graph.HeedsNoSchedule (g : Graph) (told : Step → List Event) : Prop where
  /-- No run goes on for ever, and where a run does not go on it has succeeded. -/
  ends : ∀ options n log, Machine.Plays ⟨g, options⟩ told n log → n ≤ g.batchLimit ∧
    ((∃ steps, Machine.next ⟨g, options⟩ log = .dispatch steps) ∨
      ∃ exitCode, Machine.next ⟨g, options⟩ log = .finished (.succeeded exitCode))
  /-- However many steps may run at once, there is a run that is over. -/
  finishes : ∀ options, ∃ n log exitCode, Machine.Plays ⟨g, options⟩ told n log ∧
    Machine.next ⟨g, options⟩ log = .finished (.succeeded exitCode)
  /-- All runs that are over have come to the same. -/
  agree : ∀ options options' n n' log log' result result',
    Machine.Plays ⟨g, options⟩ told n log → Machine.next ⟨g, options⟩ log = .finished result →
    Machine.Plays ⟨g, options'⟩ told n' log' → Machine.next ⟨g, options'⟩ log' = .finished result' →
    g.EndsAlike told log log' result result'

variable {g : Graph} {m : Machine} {told : Step → List Event} {step other : Step}
  {steps : List Step} {log : List Event} {e : Event} {n : Nat}

/-! ## What a step tells -/

namespace Step.TellsSuccess

theorem tells (h : step.TellsSuccess (told step)) : step.Tells (told step) .finished := by
  obtain ⟨reports, last, htold, hreports, hlast⟩ := h
  exact ⟨reports, last, htold, hreports, .inl hlast⟩

theorem startedIn_eq (h : step.TellsSuccess (told step)) : startedIn (told step) = [] := by
  obtain ⟨last, hlast, hall⟩ := h.exists_last
  refine List.filterMap_eq_nil_iff.2 fun e he => ?_
  rcases hall e he with hreport | rfl
  · exact hreport.startedStep?
  · exact Step.EndsWith.startedStep? (.inl hlast)

theorem isTaskFailure (h : step.TellsSuccess (told step)) (he : e ∈ step.posting told) :
    e.isTaskFailure = false := by
  obtain ⟨last, hlast, hall⟩ := h.exists_last_posting
  rcases hall e he with rfl | hreport | rfl
  · rfl
  · exact hreport.isTaskFailure
  · exact hlast.isTaskFailure

/-- A step tells of its milestone once. -/
theorem eq_of_milestone? {e' : Event} {k k' : Milestone} (h : step.TellsSuccess (told step))
    (he : e ∈ step.posting told) (he' : e' ∈ step.posting told) (hk : e.milestone? = some k)
    (hk' : e'.milestone? = some k') : e = e' := by
  obtain ⟨last, -, hall⟩ := h.exists_last_posting
  have hone : ∀ e ∈ step.posting told, ∀ k, e.milestone? = some k → e = last := by
    intro e he k hk
    rcases hall e he with rfl | hreport | rfl
    · simp [Event.milestone?] at hk
    · simp [hreport.milestone?] at hk
    · rfl
  rw [hone e he k hk, hone e' he' k' hk']

end Step.TellsSuccess

/-! ## A run that is alike -/

/-- All steps may be announced before the first of them goes on. -/
theorem interleaves_announced (told : Step → List Event) (steps : List Step) :
    Interleaves (steps.map (Step.posting told))
      (steps.map .stepStarting ++ steps.flatMap told) := by
  suffices h : ∀ before : List (List Event),
      Interleaves (before ++ steps.map (Step.posting told))
        (steps.map .stepStarting ++ (before.flatten ++ steps.flatMap told)) from h []
  induction steps with
  | nil =>
    intro before
    simpa using Interleaves.flatten before
  | cons step steps ih =>
    intro before
    have hrest := ih (before ++ [told step])
    rw [List.append_assoc, List.flatten_append, List.append_assoc] at hrest
    simpa [Step.posting] using hrest.take

/-- The steps of a batch come to their ends one after the other. -/
theorem Moment.Carries.finishAll {base : Moment} {rest : List Step}
    (htold : ∀ step ∈ steps, step.TellsSuccess (told step))
    (h : Moment.Carries base (steps ++ rest) log) :
    Moment.Carries base rest (log ++ steps.flatMap told) := by
  induction steps generalizing log with
  | nil => simpa using h
  | cons step steps ih =>
    rw [List.flatMap_cons, ← List.append_assoc]
    exact ih (fun other ho => htold other (List.mem_cons_of_mem _ ho))
      (h.finished (htold step (List.mem_cons_self ..)).tells)

/-- Whether the moment lies between two batches of a run that nobody interrupts. -/
structure Moment.Calm (m : Machine) (t : Moment) : Prop where
  reachable : Reachable m t
  idle : t.IsIdle
  top : t.deciding = false
  calm : t.cancelled = false

/-- Whether every step that was started has posted what it is said to. -/
structure Steady (g : Graph) (told : Step → List Event) (t : Moment) : Prop where
  lawful : Moment.Lawful g t
  idle : t.IsIdle
  posted : Interleaves ((startedIn t.log).map (Step.posting told)) t.log

namespace Steady

variable {t t' : Moment}

theorem once (h : Steady g told t) : ((startedIn t.log).map Step.milestone).Nodup := by
  have honce := h.lawful.once
  rwa [h.idle.1, List.append_nil] at honce

theorem allows (h : Steady g told t) (hs : step ∈ startedIn t.log) : g.Allows t.log step :=
  h.lawful.allowed step (List.mem_append_left _ hs)

variable (htold : ∀ step : Step, step.isTeardown = false → step.TellsSuccess (told step))

include htold

theorem tellsSuccess (h : Steady g told t) (hs : step ∈ startedIn t.log) :
    step.TellsSuccess (told step) :=
  htold step (h.allows hs).isTeardown

/-- Every other interleaving is alike. -/
theorem alike (h : Steady g told t)
    (hlog : Interleaves ((startedIn t.log).map (Step.posting told)) log) : Alike log t.log :=
  hlog.alike h.posted h.once fun _ hs => (h.tellsSuccess htold hs).posts

/-- Nothing has gone wrong. -/
theorem not_failedIn (h : Steady g told t) : ¬ FailedIn t.log := by
  rintro ⟨e, he, hfailure⟩
  obtain ⟨l, hl, he⟩ := h.posted.mem_iff.1 he
  obtain ⟨step, hs, rfl⟩ := List.mem_map.1 hl
  rw [(h.tellsSuccess htold hs).isTaskFailure he] at hfailure
  simp at hfailure

/-- What tells of a milestone was told by the step that was there for it. -/
theorem exists_step {k : Milestone} (h : Steady g told t) (he : e ∈ t.log)
    (hk : e.milestone? = some k) :
    ∃ step ∈ startedIn t.log, step.milestone = k ∧ e ∈ step.posting told := by
  obtain ⟨l, hl, he⟩ := h.posted.mem_iff.1 he
  obtain ⟨step, hs, rfl⟩ := List.mem_map.1 hl
  exact ⟨step, hs, ((h.tellsSuccess htold hs).posts e he).milestone_eq hk, he⟩

/-- A batch leads to the next such moment. -/
theorem batch (hg : m.graph.WellFormed) (h : Steady m.graph told t) (ht : Moment.Calm m t)
    (hd : m.next t.log = .dispatch steps) :
    ∃ u, Steady m.graph told u ∧ Moment.Calm m u ∧ u.batches = t.batches + 1 ∧
      startedIn u.log = startedIn t.log ++ steps := by
  have hsteps : ∀ step ∈ steps, step.TellsSuccess (told step) := by
    intro step hs
    obtain ⟨-, rfl⟩ := Machine.next_dispatch hd
    have hplanned := (m.limited_sublist _).subset hs
    exact htold step (Graph.allows_of_mem_nextSteps hg hplanned).isTeardown
  have hstarted : startedIn (t.log ++ steps.map .stepStarting ++ steps.flatMap told) =
      startedIn t.log ++ steps := by
    have hannounced : startedIn (steps.map .stepStarting) = steps := by
      rw [startedIn, List.filterMap_map]
      exact List.filterMap_some
    have hnone : startedIn (steps.flatMap told) = [] := by
      refine List.filterMap_eq_nil_iff.2 fun e he => ?_
      obtain ⟨step, hs, he⟩ := List.mem_flatMap.1 he
      exact List.filterMap_eq_nil_iff.1 (hsteps step hs).startedIn_eq e he
    rw [startedIn_append, startedIn_append, hannounced, hnone, List.append_nil]
  have hbegin := (ht.reachable.move (.pass ht.idle ht.top (.inl ht.calm))).move
    (.dispatch ht.idle rfl hd)
  have hannounced : Moment.Carries (Moment.begin { t with deciding := true } steps) (steps ++ [])
      (t.log ++ steps.map .stepStarting) := by
    rw [List.append_nil]
    exact Moment.carries_announced ht.idle.2
  obtain ⟨underWay, hnone, hworks⟩ := hannounced.finishAll hsteps
  obtain rfl := hnone.eq_nil
  have hu := hbegin.works hworks
  refine ⟨_, ⟨hu.lawful hg, ⟨rfl, rfl⟩, ?_⟩, ⟨hu, ⟨rfl, rfl⟩, rfl, ht.calm⟩, rfl, hstarted⟩
  dsimp only
  rw [hstarted, List.map_append, List.append_assoc]
  exact h.posted.append (interleaves_announced told steps)

end Steady

/-- **Every run in which the steps post what they are said to is alike to one that goes through
reachable moments.** -/
theorem Machine.Plays.exists_steady (hg : m.graph.WellFormed)
    (htold : ∀ step : Step, step.isTeardown = false → step.TellsSuccess (told step))
    (h : m.Plays told n log) :
    ∃ t, Steady m.graph told t ∧ Moment.Calm m t ∧ t.batches = n ∧
      Interleaves ((startedIn t.log).map (Step.posting told)) log := by
  induction h with
  | start =>
    have hnone : Interleaves (List.map (Step.posting told) []) [] := .done (by simp)
    exact ⟨{}, ⟨Moment.lawful_start _, ⟨rfl, rfl⟩, hnone⟩, ⟨.start, ⟨rfl, rfl⟩, rfl, rfl⟩, rfl,
      hnone⟩
  | batch _ decision interleaved ih =>
    obtain ⟨t, ht, hcalm, hn, hlog⟩ := ih
    rw [(ht.alike htold hlog).next_eq m] at decision
    obtain ⟨u, hu, hcalm', hbatches, hstarted⟩ := ht.batch htold hg hcalm decision
    refine ⟨u, hu, hcalm', hbatches.trans (congrArg (· + 1) hn), ?_⟩
    rw [hstarted, List.map_append]
    exact hlog.append interleaved

/-! ## The same steps -/

namespace Steady

variable {t t' : Moment} (hg : g.WellFormed)
  (htold : ∀ step : Step, step.isTeardown = false → step.TellsSuccess (told step))
  (h : Steady g told t) (h' : Steady g told t')

include htold h h'

/-- Where the step that tells of a milestone is the same in two runs, what it tells is the same. -/
theorem eq_of_told {e' : Event} {k : Milestone}
    (hsame : ∀ step ∈ startedIn t.log, ∀ other ∈ startedIn t'.log,
      step.milestone = k → other.milestone = k → step = other)
    (he : e ∈ t.log) (he' : e' ∈ t'.log) (hk : e.milestone? = some k)
    (hk' : e'.milestone? = some k) : e = e' := by
  obtain ⟨step, hs, hm, he⟩ := h.exists_step htold he hk
  obtain ⟨other, ho, hm', he'⟩ := h'.exists_step htold he' hk'
  obtain rfl := hsame step hs other ho hm hm'
  exact (h.tellsSuccess htold hs).eq_of_milestone? he he' hk hk'

/-- What the preparations tell is the same. -/
theorem eq_of_preparation_told {e' : Event} {preparation : Step}
    (hp : preparation.isPreparation = true) (he : e ∈ t.log) (he' : e' ∈ t'.log)
    (hk : e.milestone? = some preparation.milestone)
    (hk' : e'.milestone? = some preparation.milestone) : e = e' := by
  refine eq_of_told htold h h' ?_ he he' hk hk'
  intro step hs other ho hm hm'
  exact (h.allows hs).eq_of_isPreparation (h'.allows ho)
    (Step.isPreparation_of_milestone_eq hp hm) (hm.trans hm'.symm)

/-- So the network is the same, -/
theorem network_eq {network network' : Network} (hn : .networkCreated network ∈ t.log)
    (hn' : .networkCreated network' ∈ t'.log) : network = network' :=
  have hp : Step.createNetwork.isPreparation = true := rfl
  Event.networkCreated.inj (eq_of_preparation_told htold h h' hp hn hn' rfl rfl)

/-- and so are the images. -/
theorem image_eq {k : Container} {image image' : Image} (hi : k.imageEvent image ∈ t.log)
    (hi' : k.imageEvent image' ∈ t'.log) : image = image' :=
  Container.imageEvent_inj (eq_of_preparation_told htold h h' (g.isPreparation_imageStep k) hi hi'
    (k.milestone?_imageEvent g image) (k.milestone?_imageEvent g image'))

include hg

/-- A container is created from the same image, on the same network, -/
theorem eq_of_created {c : String} (hs : step ∈ startedIn t.log) (ho : other ∈ startedIn t'.log)
    (hm : step.milestone = .created c) (hm' : other.milestone = .created c) : step = other := by
  have ha := h.allows hs
  have ha' := h'.allows ho
  cases step <;> simp only [Step.milestone, reduceCtorEq, Milestone.created.injEq] at hm
  cases other <;> simp only [Step.milestone, reduceCtorEq, Milestone.created.injEq] at hm'
  subst hm hm'
  obtain ⟨⟨k, hk, rfl, himage⟩, hnetwork, -⟩ := ha
  obtain ⟨⟨k', hk', hname, himage'⟩, hnetwork', -⟩ := ha'
  obtain rfl := Graph.eq_of_name_eq hg hk' hk hname
  obtain rfl := image_eq htold h h' himage himage'
  obtain rfl := network_eq htold h h' hnetwork hnetwork'
  rfl

/-- and has the same handle. -/
theorem handle_eq {c : String} {handle handle' : Handle} (hc : .containerCreated c handle ∈ t.log)
    (hc' : .containerCreated c handle' ∈ t'.log) : handle = handle' := by
  have hsame := eq_of_told htold h h' (k := .created c)
    (fun _ hs _ ho => eq_of_created hg htold h h' hs ho) hc hc' rfl rfl
  exact (Event.containerCreated.inj hsame).2

/-- **What is there for the same thing is the same step in both runs.** -/
theorem eq_of_milestone_eq (hs : step ∈ startedIn t.log) (ho : other ∈ startedIn t'.log)
    (hm : step.milestone = other.milestone) : step = other := by
  have ha := h.allows hs
  have ha' := h'.allows ho
  have hhandle : ∀ {c : String} {handle handle' : Handle}, .containerCreated c handle ∈ t.log →
      .containerCreated c handle' ∈ t'.log → handle = handle' := handle_eq hg htold h h'
  cases step with
  | createNetwork | initialiseCaches | buildImage | pullImage =>
    exact ha.eq_of_isPreparation ha' rfl hm
  | createContainer c => exact eq_of_created hg htold h h' hs ho rfl hm.symm
  | startContainer =>
    cases other <;> simp only [Step.milestone, reduceCtorEq, Milestone.started.injEq] at hm
    subst hm
    rw [hhandle ha.2 ha'.2]
  | awaitHealth =>
    cases other <;> simp only [Step.milestone, reduceCtorEq, Milestone.healthy.injEq] at hm
    subst hm
    rw [hhandle ha.2.1 ha'.2.1]
  | runSetupCommands =>
    cases other <;> simp only [Step.milestone, reduceCtorEq, Milestone.ready.injEq] at hm
    subst hm
    rw [hhandle ha.2.1 ha'.2.1]
  | runContainer =>
    cases other <;> simp only [Step.milestone, reduceCtorEq, Milestone.exited.injEq] at hm
    subst hm
    rw [hhandle ha.2.1 ha'.2.1]
  | stopContainer | removeContainer | deleteFile | deleteDirectory | deleteNetwork =>
    exact ha.elim

end Steady

/-! ## Runs that are over -/

/-- When the main container has exited, all has been reached that any step may be started for. -/
theorem Moment.Lawful.reached_of_exited {t : Moment} (hg : g.WellFormed) (h : Moment.Lawful g t)
    (hexited : (Milestone.exited g.main).ReachedIn t.log) {events : List Event}
    (ha : g.Allows events step) : step.milestone.ReachedIn t.log := by
  obtain ⟨run, -, hm, hrun⟩ := h.allows_of_reachedIn hexited
  cases run <;> simp only [Step.milestone, reduceCtorEq, Milestone.exited.injEq] at hm
  obtain ⟨rfl, -, hready⟩ := hrun
  rcases h.reached_of_main_ready hg hready ha with hr | hk
  · exact hr
  · exact hk ▸ hexited

namespace Steady

variable {t t' : Moment} {result result' : TaskResult}
  (htold : ∀ step : Step, step.isTeardown = false → step.TellsSuccess (told step))

include htold

/-- A run that is over has succeeded. -/
theorem succeeded {options : Options} (h : Steady g told t)
    (hd : Machine.next ⟨g, options⟩ t.log = .finished result) :
    ∃ exitCode, result = .succeeded exitCode := by
  have hresult := Machine.next_finished hd
  rw [Machine.result?_of_not_failedIn (h.not_failedIn htold), Option.map_eq_some_iff] at hresult
  obtain ⟨exitCode, -, rfl⟩ := hresult
  exact ⟨exitCode, rfl⟩

/-- A run that is over has started whatever another run has started. -/
theorem started_subset {options : Options} (hg : g.WellFormed) (h : Steady g told t)
    (h' : Steady g told t') (hd' : Machine.next ⟨g, options⟩ t'.log = .finished result') :
    startedIn t.log ⊆ startedIn t'.log := by
  have hover := Machine.exists_result?_iff.1 ⟨_, Machine.next_finished hd'⟩
  have hexited := hover.resolve_left (h'.not_failedIn htold)
  intro step hs
  have hreached := h'.lawful.reached_of_exited hg hexited (h.allows hs)
  obtain ⟨other, ho, hm, -⟩ := h'.lawful.earned _ hreached
  rw [eq_of_milestone_eq hg htold h h' hs ho hm.symm]
  exact ho

/-- **Runs that are over have started the same steps.** -/
theorem started_perm {options options' : Options} (hg : g.WellFormed) (h : Steady g told t)
    (h' : Steady g told t') (hd : Machine.next ⟨g, options⟩ t.log = .finished result)
    (hd' : Machine.next ⟨g, options'⟩ t'.log = .finished result') :
    (startedIn t.log).Perm (startedIn t'.log) := by
  refine (List.perm_ext_iff_of_nodup h.once.of_map h'.once.of_map).2 fun step => ?_
  constructor
  · exact fun hs => h.started_subset htold hg h' hd' hs
  · exact fun hs => h'.started_subset htold hg h hd hs

end Steady

namespace Machine.Plays

variable {options options' : Options} {n' : Nat} {log' : List Event} {result result' : TaskResult}
  (htold : ∀ step : Step, step.isTeardown = false → step.TellsSuccess (told step))

include htold

/-- A run comes to its end, and has succeeded then. -/
theorem goes_on_or_succeeds (hg : m.graph.WellFormed) (h : m.Plays told n log) :
    n ≤ m.graph.batchLimit ∧ ((∃ steps, m.next log = .dispatch steps) ∨
      ∃ exitCode, m.next log = .finished (.succeeded exitCode)) := by
  obtain ⟨t, ht, -, rfl, hlog⟩ := h.exists_steady hg htold
  refine ⟨ht.lawful.batches_le hg, ?_⟩
  rw [(ht.alike htold hlog).next_eq]
  cases hd : m.next t.log with
  | dispatch steps => exact .inl ⟨steps, rfl⟩
  | finished result =>
    obtain ⟨exitCode, rfl⟩ := ht.succeeded htold hd
    exact .inr ⟨exitCode, rfl⟩
  | stalled => exact absurd hd (ht.lawful.not_stalled hg ht.idle)

/-- Runs that are over have posted interleavings of the same lists. -/
theorem exists_interleaves (hg : g.WellFormed) (h : Machine.Plays ⟨g, options⟩ told n log)
    (hd : Machine.next ⟨g, options⟩ log = .finished result)
    (h' : Machine.Plays ⟨g, options'⟩ told n' log')
    (hd' : Machine.next ⟨g, options'⟩ log' = .finished result') :
    ∃ steps : List Step, (steps.map Step.milestone).Nodup ∧ steps ⊆ startedIn log ∧
      (∀ step ∈ steps, step.TellsSuccess (told step)) ∧
      Interleaves (steps.map (Step.posting told)) log ∧
      Interleaves (steps.map (Step.posting told)) log' := by
  obtain ⟨t, ht, -, -, hlog⟩ := h.exists_steady hg htold
  obtain ⟨t', ht', -, -, hlog'⟩ := h'.exists_steady hg htold
  have halike := ht.alike htold hlog
  rw [halike.next_eq] at hd
  rw [(ht'.alike htold hlog').next_eq] at hd'
  have hsame := (ht.started_perm htold hg ht' hd hd').map (Step.posting told)
  refine ⟨startedIn t.log, ht.once, ?_, fun _ hs => ht.tellsSuccess htold hs, hlog,
    hlog'.of_perm hsame.symm⟩
  intro step hs
  exact mem_startedIn.2 (halike.perm.mem_iff.2 (mem_startedIn.1 hs))

/-- **Runs that are over have come to the same.** -/
theorem endsAlike (hg : g.WellFormed) (h : Machine.Plays ⟨g, options⟩ told n log)
    (hd : Machine.next ⟨g, options⟩ log = .finished result)
    (h' : Machine.Plays ⟨g, options'⟩ told n' log')
    (hd' : Machine.next ⟨g, options'⟩ log' = .finished result') :
    g.EndsAlike told log log' result result' := by
  obtain ⟨steps, honce, hstarted, hsuccess, hlog, hlog'⟩ := h.exists_interleaves htold hg hd h' hd'
  have halike := hlog.alike hlog' honce fun _ hs => (hsuccess _ hs).posts
  have hagrees := Summary.agrees_of_alike halike
  refine ⟨?_, halike.perm.filterMap _, hagrees.same_teardownPlan g, fun hspelt => ?_⟩
  · have hresult := Machine.next_finished hd
    rw [hagrees.result?_eq] at hresult
    -- The options have no say in how a task ended.
    have hresult' := Machine.next_finished hd'
    exact Option.some.inj (hresult.symm.trans hresult')
  · have hpaths : SpeltAlike ([] ++ log) ([] ++ log') := by
      refine hlog.speltAlike hlog' fun step hs other ho => ?_
      -- The announcement of a step tells of no path.
      obtain ⟨hfiles, hdirectories⟩ := hspelt step (hstarted hs) other (hstarted ho)
      exact ⟨hfiles, hdirectories⟩
    exact g.teardownPlan_eq_of_alike halike hpaths

end Machine.Plays

/-! ## One step after the other -/

/-- What has been posted after some more batches, if the steps of a batch are worked off one after
the other. -/
def Machine.sequel (m : Machine) (told : Step → List Event) : Nat → List Event → List Event
  | 0, log => log
  | rounds + 1, log =>
    match m.next log with
    | .dispatch steps => m.sequel told rounds (log ++ steps.flatMap (Step.posting told))
    | _ => log

/-- A run can go on in this way, and does so until no batch is left. -/
theorem Machine.Plays.sequel (h : m.Plays told n log) (rounds : Nat) :
    ∃ n', m.Plays told n' (m.sequel told rounds log) ∧
      (n' = n + rounds ∨ ∀ steps, m.next (m.sequel told rounds log) ≠ .dispatch steps) := by
  induction rounds generalizing n log with
  | zero => exact ⟨n, h, .inl rfl⟩
  | succ rounds ih =>
    unfold Machine.sequel
    split
    · next steps hd =>
      obtain ⟨n', hplays, hend⟩ := ih (h.batch hd (.flatten (steps.map (Step.posting told))))
      exact ⟨n', hplays, hend.imp_left (by omega)⟩
    · next hnone => exact ⟨n, h, .inr hnone⟩

/-- **Runs whose steps all succeed come to the same, whatever the schedule.** -/
theorem Graph.heedsNoSchedule_of_resolve {project : Project} {task : String}
    (hresolve : Graph.resolve project task = .ok g)
    (htold : ∀ step : Step, step.isTeardown = false → step.TellsSuccess (told step)) :
    g.HeedsNoSchedule told where
  ends options n log h :=
    h.goes_on_or_succeeds (m := ⟨g, options⟩) htold (Graph.wellFormed_of_resolve hresolve)
  finishes options := by
    have hg := Graph.wellFormed_of_resolve hresolve
    have hstart : Machine.Plays ⟨g, options⟩ told 0 [] := .start
    obtain ⟨n, hplays, hend⟩ := hstart.sequel (g.batchLimit + 1)
    obtain ⟨hn, hnext⟩ : n ≤ g.batchLimit ∧ _ :=
      hplays.goes_on_or_succeeds (m := ⟨g, options⟩) htold hg
    have hover := hend.resolve_left (by omega)
    obtain ⟨exitCode, hd⟩ := hnext.resolve_left fun ⟨steps, hd⟩ => hover steps hd
    exact ⟨n, _, exitCode, hplays, hd⟩
  agree _ _ _ _ _ _ _ _ h hd h' hd' :=
    h.endsAlike htold (Graph.wellFormed_of_resolve hresolve) hd h' hd'

/-! The market opens step by step, or with the stalls made side by side. The second one has made the
pears first. -/

namespace Market

/-- What has been posted when the market has opened step by step, -/
def slowly : List Event := machine.sequel Market.told 20 []

/-- and what if the stalls are made side by side. -/
def sideBySide : List Event := crowded.sequel Market.told 20 (prepared ++ pearsFirst)

theorem plays_slowly : ∃ n, machine.Plays Market.told n slowly := by
  have hstart : machine.Plays Market.told 0 [] := .start
  obtain ⟨n, hplays, -⟩ := hstart.sequel 20
  exact ⟨n, hplays⟩

theorem plays_sideBySide : ∃ n, crowded.Plays Market.told n sideBySide := by
  have hprepared : crowded.Plays Market.told 1 prepared :=
    Machine.Plays.start.batch next_nil (interleaves_announced Market.told _)
  obtain ⟨n, hplays, -⟩ := (hprepared.batch next_prepared interleaves_pearsFirst).sequel 20
  exact ⟨n, hplays⟩

theorem next_slowly : machine.next slowly = .finished (.succeeded 0) := by decide +kernel

theorem next_sideBySide : crowded.next sideBySide = .finished (.succeeded 0) := by decide +kernel

/-- Both have started the same steps. -/
theorem same_steps_side_by_side : (startedIn slowly).Perm (startedIn sideBySide) := by
  obtain ⟨n, hslowly⟩ := plays_slowly
  obtain ⟨n', hsideBySide⟩ := plays_sideBySide
  have hsame := Graph.heedsNoSchedule_of_resolve resolve_project fun step _ =>
    tellsSuccess_told step
  exact (hsame.agree _ _ _ _ _ _ _ _ hslowly next_slowly hsideBySide next_sideBySide).started

/-- But what is told to the user depends on it. -/
theorem schedule_shows_in_commands :
    Graph.resolve project "open" = .ok graph ∧
      (∀ step : Step, step.TellsSuccess (Market.told step)) ∧
      (∃ n, machine.Plays Market.told n slowly) ∧ machine.next slowly = .finished (.succeeded 0) ∧
      (∃ n, crowded.Plays Market.told n sideBySide) ∧
      crowded.next sideBySide = .finished (.succeeded 0) ∧
      "rm /tmp/passwd" ∈ (graph.teardownPlan (.ofEvents slowly)).commands ∧
      "rm /tmp/passwd" ∉ (graph.teardownPlan (.ofEvents sideBySide)).commands :=
  ⟨resolve_project, tellsSuccess_told, plays_slowly, next_slowly, plays_sideBySide,
    next_sideBySide, by decide +kernel, by decide +kernel⟩

end Market

end Stevedore
