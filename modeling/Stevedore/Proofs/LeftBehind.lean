import Stevedore.Proofs.Removal

/-!
What a run leaves behind, and whether the user is told.

Of what the engine has made for the task each thing is gone in the end, or there is a command in the
report that removes it: the plan covers all of it, a step that tells of its success has succeeded,
and whoever fails stays among the leftovers (`Concluded.gone_or_told`). What is made for the caches
is no part of the events. It is asked to be removed at once, but if the engine refuses nobody hears
of it, so that it stays and no command removes it. This is the only way to lose something
(`accounted_iff_caches_gone`).
-/

namespace Stevedore

/-! ## Commands and steps -/

/-- The command that removes a container by force. -/
theorem Step.eq_removal_of_command? {step : Step} {handle : Handle}
    (h : step.command? = some s!"docker rm --force --volumes {handle.id}") :
    ∃ c other, step = .removeContainer c other ∧ other.id = handle.id := by
  have hcommand := congrArg (Option.map String.toList) h
  cases step <;> simp [command?, toString] at hcommand
  next c other => exact ⟨c, other, rfl, String.toList_inj.1 hcommand⟩

theorem Machine.commands_eq_of_skip {m : Machine} {events : List Event} {result : TaskResult}
    {manual : ManualCleanup} (h : m.cleanup events result = .skip manual) :
    manual.commands = (Summary.ofEvents events).leftovers.filterMap Step.command? := by
  rw [← Summary.manualCommands_eq]
  unfold cleanup at h
  dsimp only at h
  split at h
  · split at h <;> rw [← CleanupDecision.skip.inj h] <;> rfl
  · simp at h

theorem ManualCleanup.commands_afterCleanup (events : List Event) : (afterCleanup events).commands =
    (Summary.ofEvents events).leftovers.filterMap Step.command? := by
  rw [afterCleanup_eq]
  split
  · next h => rw [h]; rfl
  · rfl

/-! ## What is gone -/

/-- Whether the container was removed after it had been made. -/
def ContainerGone (record : List Deed) (handle : Handle) : Prop :=
  ∃ request, [.answered (.createContainer request) (.ok handle),
    .answered (.removeContainer handle) (.ok ())].Sublist record

/-- Whether the network was deleted after it had been made. -/
def NetworkGone (record : List Deed) (network : Network) : Prop :=
  ∃ name driver, [.answered (.createNetwork name driver) (.ok network),
    .answered (.deleteNetwork network) (.ok ())].Sublist record

/-- Whether all that the engine has made is gone, or else a command removes it. -/
structure Accounted (record : List Deed) (manual : ManualCleanup) : Prop where
  container : ∀ known handle, (known, handle) ∈ record.filterMap Deed.made? →
    ContainerGone record handle ∨ s!"docker rm --force --volumes {handle.id}" ∈ manual.commands
  network : ∀ network, Scene.NetworkMade record network →
    NetworkGone record network ∨ s!"docker network rm {network.id}" ∈ manual.commands

/-- Whether what was made for the caches is gone. It has no name by which others know it. -/
def CachesGone (record : List Deed) : Prop :=
  ∀ handle, (none, handle) ∈ record.filterMap Deed.made? → ContainerGone record handle

namespace Scene

variable {w : Worker} {m : Machine} {s u : Scene} {result : TaskResult} {manual : ManualCleanup}
  {step : Step} {call : EngineCall} {command : String} {handle : Handle} {network : Network}
  {d : Deed}

/-! ## The end of a run stage -/

/-- What is left over after the run stage is what the plan takes down, except for what it stops. -/
theorem Reachable.mem_leftovers_iff (hw : w.graph = m.graph) (hg : m.graph.WellFormed)
    (h : Reachable w m s) : step ∈ (Summary.ofEvents s.log).leftovers ↔
      step.command?.isSome ∧ step ∈ (m.graph.teardownPlan (.ofEvents s.log)).steps := by
  obtain ⟨t, ht, hmirrors⟩ := h.mirrors hw hg
  rw [← hmirrors.log]
  exact Graph.mem_leftovers_iff hg fun _ _ => ht.mem_names hg

/-- What was made for the caches is gone by then, or else the engine has refused to remove it. -/
theorem Reachable.gone_or_refused (hw : w.graph = m.graph) (hg : m.graph.WellFormed)
    (h : Reachable w m s) (hi : s.IsIdle) (hd : (none, handle) ∈ s.record.filterMap Deed.made?) :
    ContainerGone s.record handle ∨
      ∃ e, .answered (.removeContainer handle) (.error e) ∈ s.record := by
  obtain ⟨request, hunknown, hd⟩ := mem_made.1 hd
  obtain ⟨e, heq, -⟩ | ⟨step, history, hd, hsub, hthrough, -⟩ := h.deed_cases hw hg hi hd
  · simp at heq
  obtain ⟨request, reply, hanswered⟩ :=
    Worker.removal_answered (hw ▸ hg) hthrough (mem_made.2 ⟨request, hunknown, hd⟩)
  have hrecord := hanswered.trans hsub
  cases reply with
  | ok => exact .inl ⟨request, hrecord⟩
  | error e => exact .inr ⟨e, hrecord.subset (by simp)⟩

/-! ## The end of a run -/

/-- What is left over in the end was to be taken down, and no step has told that it was. -/
theorem CleanedUp.mem_leftovers_iff (h : CleanedUp w m s u) :
    ∃ record, u.record = s.record ++ record ∧
      Undoes (m.graph.teardownPlan (.ofEvents s.log)).steps record ∧
      ∀ step, step ∈ (Summary.ofEvents u.log).leftovers ↔ step.command?.isSome ∧
        step ∈ (m.graph.teardownPlan (.ofEvents s.log)).steps ∧
        ¬ step.milestone.ReachedIn (eventsOf record) := by
  obtain ⟨record, hrecord, hundoes⟩ := h.exists_undoes
  refine ⟨record, hrecord, hundoes, ?_⟩
  intro step
  have hlog : u.log = s.log ++ eventsOf record := by
    rw [log, hrecord, eventsOf_append]
    rfl
  rw [hlog, Summary.mem_leftovers_append fun e he => hundoes.harmless e (mem_eventsOf.1 he),
    h.reachable.mem_leftovers_iff h.graph h.wellFormed, and_assoc]

theorem CleanedUp.mem_steps_of_leftover (h : CleanedUp w m s u)
    (hs : step ∈ (Summary.ofEvents u.log).leftovers) :
    step ∈ (m.graph.teardownPlan (.ofEvents s.log)).steps := by
  obtain ⟨record, -, -, hleftovers⟩ := h.mem_leftovers_iff
  exact ((hleftovers step).1 hs).2.1

/-- A step of the plan has done what it is there for, or else it is left over. -/
theorem CleanedUp.done_or_left (h : CleanedUp w m s u)
    (hs : step ∈ (m.graph.teardownPlan (.ofEvents s.log)).steps) (hcommand : step.command?.isSome)
    (hcall : step.call? = some call) (hd : d ∈ s.record) :
    (∃ answer, [d, .answered call (.ok answer)].Sublist u.record) ∨
      step ∈ (Summary.ofEvents u.log).leftovers := by
  obtain ⟨record, hrecord, hundoes, hleftovers⟩ := h.mem_leftovers_iff
  by_cases hreached : step.milestone.ReachedIn (eventsOf record)
  · left
    obtain ⟨e, he, hk⟩ := hreached
    obtain ⟨other, ho, hmilestone, hanswers⟩ := hundoes.earned e _ (mem_eventsOf.1 he) hk
    rw [List.inj_on_of_nodup_map h.nodup_milestones ho hs hmilestone] at hanswers
    obtain ⟨answer, hanswered⟩ := hanswers call hcall
    refine ⟨answer, ?_⟩
    rw [hrecord]
    exact (List.singleton_sublist.2 hd).append (List.singleton_sublist.2 hanswered)
  · exact .inr ((hleftovers step).2 ⟨hcommand, hs, hreached⟩)

/-- Whether the run stage came to its end in one scene, and the run in another, with something that
the user is told. -/
structure Concluded (w : Worker) (m : Machine) (result : TaskResult) (manual : ManualCleanup)
    (s u : Scene) : Prop where
  graph : w.graph = m.graph
  wellFormed : m.graph.WellFormed
  reachable : Reachable w m s
  idle : s.IsIdle
  concludes : Concludes w m result manual s u

namespace Concluded

/-- Either everything is kept, or the plan was carried out. The commands remove what is left. -/
theorem kept_or_cleanedUp (h : Concluded w m result manual s u) :
    (u = s ∨ CleanedUp w m s u) ∧
      manual.commands = (Summary.ofEvents u.log).leftovers.filterMap Step.command? := by
  cases h.concludes with
  | kept decision => exact ⟨.inl rfl, Machine.commands_eq_of_skip decision⟩
  | cleaned decision cleanup =>
    obtain rfl := Machine.plan_eq decision
    exact ⟨.inr ⟨h.graph, h.wellFormed, h.reachable, h.idle, cleanup⟩,
      ManualCleanup.commands_afterCleanup u.log⟩

theorem sublist_record (h : Concluded w m result manual s u) : s.record.Sublist u.record := by
  obtain ⟨rfl | hcleaned, -⟩ := h.kept_or_cleanedUp
  · exact .refl _
  · obtain ⟨record, hrecord, -⟩ := hcleaned.exists_undoes
    rw [hrecord]
    exact List.sublist_append_left _ _

theorem made_eq (h : Concluded w m result manual s u) :
    u.record.filterMap Deed.made? = s.record.filterMap Deed.made? := by
  obtain ⟨rfl | hcleaned, -⟩ := h.kept_or_cleanedUp
  · rfl
  · exact hcleaned.made_eq

theorem networkMade_iff (h : Concluded w m result manual s u) :
    NetworkMade u.record network ↔ .networkCreated network ∈ s.log := by
  obtain ⟨rfl | hcleaned, -⟩ := h.kept_or_cleanedUp
  · exact h.reachable.network_iff h.graph h.wellFormed h.idle
  · exact hcleaned.networkMade_iff

/-- **A step of the plan has done what it is there for, or else the user is told how to.** -/
theorem gone_or_told (h : Concluded w m result manual s u)
    (hs : step ∈ (m.graph.teardownPlan (.ofEvents s.log)).steps)
    (hcommand : step.command? = some command) (hcall : step.call? = some call)
    (hd : d ∈ s.record) :
    (∃ answer, [d, .answered call (.ok answer)].Sublist u.record) ∨ command ∈ manual.commands := by
  have hsome : step.command?.isSome := by rw [hcommand]; rfl
  obtain ⟨hend, hcommands⟩ := h.kept_or_cleanedUp
  have htold : step ∈ (Summary.ofEvents u.log).leftovers → command ∈ manual.commands := by
    intro hleft
    rw [hcommands]
    exact List.mem_filterMap.2 ⟨step, hleft, hcommand⟩
  rcases hend with rfl | hcleaned
  · exact .inr (htold ((h.reachable.mem_leftovers_iff h.graph h.wellFormed).2 ⟨hsome, hs⟩))
  · exact (hcleaned.done_or_left hs hsome hcall hd).imp_right htold

/-- The user is told only of what the plan takes down. -/
theorem exists_step_of_command (h : Concluded w m result manual s u)
    (hcommand : command ∈ manual.commands) :
    ∃ step ∈ (m.graph.teardownPlan (.ofEvents s.log)).steps, step.command? = some command := by
  obtain ⟨hend, hcommands⟩ := h.kept_or_cleanedUp
  rw [hcommands] at hcommand
  obtain ⟨step, hleft, hstep⟩ := List.mem_filterMap.1 hcommand
  refine ⟨step, ?_, hstep⟩
  rcases hend with rfl | hcleaned
  · exact ((h.reachable.mem_leftovers_iff h.graph h.wellFormed).1 hleft).2
  · exact hcleaned.mem_steps_of_leftover hleft

/-- A container of the task is gone in the end, or the user is told of it. -/
theorem container_accounted (h : Concluded w m result manual s u) {c : String}
    (hmade : (some c, handle) ∈ u.record.filterMap Deed.made?) :
    ContainerGone u.record handle ∨
      s!"docker rm --force --volumes {handle.id}" ∈ manual.commands := by
  rw [h.made_eq] at hmade
  obtain ⟨request, -, hd⟩ := mem_made.1 hmade
  have hcreated := (h.reachable.mem_made_iff h.graph h.wellFormed h.idle).1 hmade
  have hplanned := (h.reachable.removal_mem_iff h.graph h.wellFormed).2 hcreated
  refine (h.gone_or_told hplanned rfl rfl hd).imp_left ?_
  rintro ⟨_, hgone⟩
  exact ⟨request, hgone⟩

theorem network_accounted (h : Concluded w m result manual s u)
    (hmade : NetworkMade u.record network) :
    NetworkGone u.record network ∨ s!"docker network rm {network.id}" ∈ manual.commands := by
  have hcreated := h.networkMade_iff.1 hmade
  obtain ⟨name, driver, hd⟩ :=
    (h.reachable.network_iff h.graph h.wellFormed h.idle).2 hcreated
  have hplanned := (h.reachable.networkDeletion_mem_iff h.graph h.wellFormed).2 hcreated
  refine (h.gone_or_told hplanned rfl rfl hd).imp_left ?_
  rintro ⟨_, hgone⟩
  exact ⟨name, driver, hgone⟩

/-- No command removes what was made for the caches, unless its handle was given twice. -/
theorem not_told_of_caches (h : Concluded w m result manual s u)
    (hn : ((u.record.filterMap Deed.made?).map (·.2.id)).Nodup)
    (hmade : (none, handle) ∈ u.record.filterMap Deed.made?) :
    s!"docker rm --force --volumes {handle.id}" ∉ manual.commands := by
  intro htold
  obtain ⟨step, hs, hcommand⟩ := h.exists_step_of_command htold
  obtain ⟨c, other, rfl, hid⟩ := Step.eq_removal_of_command? hcommand
  have hcreated := (h.reachable.removal_mem_iff h.graph h.wellFormed).1 hs
  have hother := (h.reachable.mem_made_iff h.graph h.wellFormed h.idle).2 hcreated
  rw [← h.made_eq] at hother
  have heq := List.inj_on_of_nodup_map hn hother hmade hid
  simp at heq

end Concluded

/-- **Only what is made for the caches can be lost.** Whatever the engine and the file system reply,
wherever the run is interrupted, and whether or not there is a cleanup: what was made for the caches
is gone before the run stage ends unless the engine refuses to remove it, and if it is gone then of
everything else too each thing is gone or a command in the report removes it. If it is not then no
command does, unless the engine gives one container the id of another. -/
theorem accounted_iff_caches_gone {project : Project} {task : String} {host : Host}
    (hresolve : Graph.resolve project task = .ok m.graph)
    (hreach : Reachable (.forTask project host m) m s) (hends : Ends m s result)
    (hconcludes : Concludes (.forTask project host m) m result manual s u) :
    (∀ handle, (none, handle) ∈ u.record.filterMap Deed.made? → ContainerGone u.record handle ∨
        ∃ e, .answered (.removeContainer handle) (.error e) ∈ s.record) ∧
      (CachesGone u.record → Accounted u.record manual) ∧
      (((u.record.filterMap Deed.made?).map (·.2.id)).Nodup →
        (Accounted u.record manual ↔ CachesGone u.record)) := by
  have h : Concluded (.forTask project host m) m result manual s u :=
    ⟨rfl, Graph.wellFormed_of_resolve hresolve, hreach, hends.1, hconcludes⟩
  have haccounted : CachesGone u.record → Accounted u.record manual := by
    intro hcaches
    refine ⟨?_, fun network => h.network_accounted⟩
    rintro (_ | c) handle hmade
    · exact .inl (hcaches handle hmade)
    · exact h.container_accounted hmade
  refine ⟨?_, haccounted, fun hn => ⟨?_, haccounted⟩⟩
  · intro handle hmade
    rw [h.made_eq] at hmade
    refine (hreach.gone_or_refused h.graph h.wellFormed h.idle hmade).imp_left ?_
    rintro ⟨request, hgone⟩
    exact ⟨request, hgone.trans h.sublist_record⟩
  · intro hall handle hmade
    exact (hall.container none handle hmade).resolve_right (h.not_told_of_caches hn hmade)

end Scene

/-! ## Runs to look at -/

/-- Which container the call has made, or removed. -/
def Success.fate? : Success → Option (Bool × Handle)
  | ⟨.createContainer _, handle⟩ => some (true, handle)
  | ⟨.removeContainer handle, _⟩ => some (false, handle)
  | _ => none

theorem Success.of_fate?_made {x : Success} {handle : Handle} (h : x.fate? = some (true, handle)) :
    ∃ request, x = ⟨.createContainer request, handle⟩ := by
  unfold fate? at h
  split at h
  · obtain ⟨-, rfl⟩ := Prod.mk.inj (Option.some.inj h)
    exact ⟨_, rfl⟩
  · simp at h
  · simp at h

theorem Success.of_fate?_removed {x : Success} {handle : Handle}
    (h : x.fate? = some (false, handle)) : x = ⟨.removeContainer handle, ()⟩ := by
  unfold fate? at h
  split at h
  · obtain ⟨hfalse, -⟩ := Prod.mk.inj (Option.some.inj h)
    simp at hfalse
  · obtain ⟨-, rfl⟩ := Prod.mk.inj (Option.some.inj h)
    rfl
  · simp at h

theorem Deed.of_success? {d : Deed} {x : Success} (h : d.success? = some x) :
    d = .answered x.call (.ok x.answer) := by
  unfold success? at h
  split at h
  · rw [← Option.some.inj h]
  · simp at h

/-- Whether a container is gone can be seen from what has succeeded. -/
theorem containerGone_iff {record : List Deed} {handle : Handle} :
    ContainerGone record handle ↔ [(true, handle), (false, handle)].Sublist
      ((record.filterMap Deed.success?).filterMap Success.fate?) := by
  constructor
  · rintro ⟨request, hgone⟩
    exact (hgone.filterMap Deed.success?).filterMap Success.fate?
  · intro h
    rw [List.filterMap_filterMap] at h
    obtain ⟨deeds, hsub, heq⟩ := List.sublist_filterMap_iff.1 h
    obtain ⟨before, first, rest, rfl, -, hfirst, hrest⟩ := List.filterMap_eq_cons_iff.1 heq.symm
    obtain ⟨between, second, after, rfl, -, hsecond, -⟩ := List.filterMap_eq_cons_iff.1 hrest
    obtain ⟨made, hmade, hfate⟩ := Option.bind_eq_some_iff.1 hfirst
    obtain ⟨removed, hremoved, hfate'⟩ := Option.bind_eq_some_iff.1 hsecond
    obtain ⟨request, rfl⟩ := Success.of_fate?_made hfate
    obtain rfl := Success.of_fate?_removed hfate'
    obtain rfl := Deed.of_success? hmade
    obtain rfl := Deed.of_success? hremoved
    refine ⟨request, List.Sublist.trans ?_ hsub⟩
    refine .trans (.cons_cons _ ?_) (List.sublist_append_right _ _)
    exact List.singleton_sublist.2 (by simp)

namespace Workshop

/-- The engine refuses to remove one container. -/
def refusesToRemove (id : String) : EngineCall → Bool
  | .removeContainer handle => handle.id = id
  | _ => false

/-- What can be seen from the end of the work holds of some scenes. -/
theorem exists_scenes {refuses : EngineCall → Bool} {p : TaskReport → List Success → Bool}
    (h : (course refuses).endsWith p = true) :
    ∃ s u result manual, Scene.Reachable (.forTask project host machine) machine s ∧
      Scene.Ends machine s result ∧
      Scene.Concludes (.forTask project host machine) machine result manual s u ∧
      p (Execution.report machine result manual u.log) (u.record.filterMap Deed.success?) := by
  obtain ⟨r, successes, hcourse, hp⟩ := Course.exists_ended h
  obtain ⟨s, u, result, manual, hreach, hends, hconcludes, rfl, hrecord⟩ :=
    Scene.exists_scenes_of_runTask (Obliging.answers _) (Obliging.remembers _) rfl hcourse
  refine ⟨s, u, result, manual, hreach, hends, hconcludes, ?_⟩
  rw [hrecord]
  exact hp

/-- The lamp cannot be removed, but the user is told. -/
theorem lamp_accounted : ∃ record manual, record.filterMap Deed.made? = made ∧
    Accounted record manual ∧ manual.commands = ["docker rm --force --volumes 8"] := by
  have hcourse : (course (refusesToRemove "8")).endsWith (fun r successes =>
      successes.filterMap Success.made? = made ∧
      successes.filterMap Success.fate? =
        [(true, ⟨"2", "workshop-cache-init-1"⟩), (false, ⟨"2", "workshop-cache-init-1"⟩),
         (true, ⟨"8", "workshop-lamp-1"⟩), (true, ⟨"11", "workshop-bench-1"⟩),
         (false, ⟨"11", "workshop-bench-1"⟩)] ∧
      r.manualCleanup.commands = ["docker rm --force --volumes 8"]) = true := by
    decide +kernel
  obtain ⟨s, u, result, manual, hreach, hends, hconcludes, hseen⟩ := exists_scenes hcourse
  obtain ⟨hmade, hfates, hcommands⟩ := of_decide_eq_true hseen
  rw [← filterMap_made?] at hmade
  have haccounted := Scene.accounted_iff_caches_gone resolve_project hreach hends hconcludes
  refine ⟨u.record, manual, hmade, haccounted.2.1 ?_, hcommands⟩
  intro handle hunknown
  rw [hmade] at hunknown
  obtain rfl : handle = ⟨"2", "workshop-cache-init-1"⟩ := by simpa [made] using hunknown
  rw [containerGone_iff, hfates]
  decide

/-- The container for the tools cannot be removed, and nobody is told. -/
theorem tools_lost : ∃ s u result manual,
    Scene.Reachable (.forTask project host machine) machine s ∧ Scene.Ends machine s result ∧
      Scene.Concludes (.forTask project host machine) machine result manual s u ∧
      ¬ Accounted u.record manual := by
  have hcourse : (course (refusesToRemove "2")).endsWith (fun r successes =>
      successes.filterMap Success.made? =
        [(none, ⟨"2", "workshop-cache-init-1"⟩), (some "lamp", ⟨"7", "workshop-lamp-1"⟩),
         (some "bench", ⟨"10", "workshop-bench-1"⟩)] ∧
      (false, ⟨"2", "workshop-cache-init-1"⟩) ∉ successes.filterMap Success.fate? ∧
      r.manualCleanup = .notRequired) = true := by
    decide +kernel
  obtain ⟨s, u, result, manual, hreach, hends, hconcludes, hseen⟩ := exists_scenes hcourse
  obtain ⟨hmade, hfates, rfl⟩ := of_decide_eq_true hseen
  refine ⟨s, u, result, .notRequired, hreach, hends, hconcludes, ?_⟩
  intro haccounted
  have htools : (none, ⟨"2", "workshop-cache-init-1"⟩) ∈ u.record.filterMap Deed.made? := by
    rw [filterMap_made?, hmade]
    exact List.mem_cons_self ..
  rcases haccounted.container none _ htools with hgone | htold
  · exact hfates ((containerGone_iff.1 hgone).subset (by simp))
  · simp [ManualCleanup.commands] at htold

end Workshop

end Stevedore
