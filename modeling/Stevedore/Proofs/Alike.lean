import Mathlib.Data.List.Forall2
import Stevedore.Proofs.Interleaving
import Stevedore.Proofs.ManualCommands

/-!
What the order of events has to do with decisions.

Two lists of events are `Alike` if they have the same events, and what tells of one milestone stands
in the same order in both. Their summaries agree in whatever a decision looks at
(`Summary.Agrees`): which failure came first is only told to the user, and in which order steps were
started or failures of the cleanup came makes no difference.

There is one thing that shows. A temporary path keeps the spelling in which it was told first, and
it is deleted, and named to the user, in this spelling. So decisions on lists that are alike do the
same (`DecidesAlike`), and are equal if every path is told in the same spelling first
(`DecidesEqually`).

Events of steps that are there for different things come to lists that are alike however they are
interleaved (`Interleaves.alike`).
-/

namespace Stevedore

variable {l r l' r' : List Event}

/-- Whether two lists have the same events, and those that tell of one milestone in one order. -/
structure Alike (l r : List Event) : Prop where
  perm : l.Perm r
  told : ∀ k : Milestone,
    (l.filter fun e => e.milestone? = some k) = r.filter fun e => e.milestone? = some k

/-- Whether temporary paths are told in the same spelling first. -/
structure SpeltAlike (l r : List Event) : Prop where
  files : ∀ key : PathKey, (l.filterMap Event.file?).find? (·.key = key) =
    (r.filterMap Event.file?).find? (·.key = key)
  directories : ∀ key : PathKey, (l.filterMap Event.directory?).find? (·.key = key) =
    (r.filterMap Event.directory?).find? (·.key = key)

namespace Alike

theorem refl (l : List Event) : Alike l l := ⟨.refl l, fun _ => rfl⟩

theorem append (h : Alike l r) (h' : Alike l' r') : Alike (l ++ l') (r ++ r') where
  perm := h.perm.append h'.perm
  told k := by rw [List.filter_append, List.filter_append, h.told, h'.told]

theorem reachedIn_iff (h : Alike l r) {k : Milestone} : k.ReachedIn l ↔ k.ReachedIn r := by
  simp only [Milestone.ReachedIn, h.perm.mem_iff]

end Alike

/-! ## Sets of paths -/

namespace PathSet

variable {s s' t t' : PathSet} {paths paths' : List Path} {key : PathKey}

theorem mem_keys_without (hs : ∀ key, SortedMap.get? s key = paths.find? (·.key = key)) :
    key ∈ (s.without t).map Path.key ↔
      (∃ path ∈ paths, path.key = key) ∧ SortedMap.contains t key = false := by
  rw [List.mem_map]
  constructor
  · rintro ⟨path, hpath, rfl⟩
    obtain ⟨hfirst, hnot⟩ := (mem_without hs).1 hpath
    exact ⟨⟨path, hfirst.mem, rfl⟩, hnot⟩
  · rintro ⟨⟨path, hpath, rfl⟩, hnot⟩
    obtain ⟨first, hkey, hfirst⟩ := Path.exists_firstIn hpath
    exact ⟨first, (mem_without hs).2 ⟨hfirst, hkey ▸ hnot⟩, hkey⟩

/-- Sets of the same paths, less the same paths, leave the same paths in the same order, whatever
the spelling. -/
theorem keys_without_eq (hs : ∀ key, SortedMap.get? s key = paths.find? (·.key = key))
    (hs' : ∀ key, SortedMap.get? s' key = paths'.find? (·.key = key)) (hperm : paths.Perm paths')
    (hless : ∀ key, SortedMap.contains t key = SortedMap.contains t' key) :
    (s.without t).map Path.key = (s'.without t').map Path.key := by
  let keys : SortedSet PathKey :=
    ⟨(s.without t).map Path.key, List.pairwise_map.2 (pairwise_without hs)⟩
  let keys' : SortedSet PathKey :=
    ⟨(s'.without t').map Path.key, List.pairwise_map.2 (pairwise_without hs')⟩
  have hsame : keys = keys' := by
    refine SortedSet.ext_mem fun key => ?_
    refine (mem_keys_without hs).trans (Iff.trans ?_ (mem_keys_without hs').symm)
    simp only [hperm.mem_iff, hless]
  exact congrArg SortedSet.toList hsame

end PathSet

/-! ## Summaries -/

namespace Summary

/-- Whether two summaries agree in all that decisions look at. Temporary paths count in whatever
spelling. -/
structure Agrees (s t : Summary) : Prop where
  reached : s.reached = t.reached
  shows : s.shows = t.shows
  interrupted : s.interrupted = t.interrupted
  hasFailed : s.hasFailed = t.hasFailed
  wasDispatched : s.wasDispatched = t.wasDispatched
  failures : s.cleanupFailures.isEmpty = t.cleanupFailures.isEmpty
  files : s.outstandingFiles.map Path.key = t.outstandingFiles.map Path.key
  directories : s.outstandingDirectories.map Path.key = t.outstandingDirectories.map Path.key

theorem shows_eq_of_alike (h : Alike l r) : (ofEvents l).shows = (ofEvents r).shows := by
  funext e
  refine propext ?_
  cases hkept : e.isKept with
  | true =>
    obtain ⟨k, hk⟩ : ∃ k, e.milestone? = some k := by
      cases e <;> simp only [Event.isKept, Bool.false_eq_true] at hkept <;> exact ⟨_, rfl⟩
    rw [shows_ofEvents hkept hk, shows_ofEvents hkept hk, Milestone.LastIn, Milestone.LastIn,
      h.told]
  | false => cases e <;> first | exact Iff.rfl | simp [Event.isKept] at hkept

theorem reached_eq_of_alike (h : Alike l r) : (ofEvents l).reached = (ofEvents r).reached := by
  funext k
  rw [Bool.eq_iff_iff, reached_ofEvents, reached_ofEvents, h.reachedIn_iff]

/-- The summaries of lists that are alike agree. -/
theorem agrees_of_alike (h : Alike l r) : (ofEvents l).Agrees (ofEvents r) where
  reached := reached_eq_of_alike h
  shows := shows_eq_of_alike h
  interrupted := by
    rw [Bool.eq_iff_iff, interrupted_ofEvents, interrupted_ofEvents, h.perm.mem_iff]
  hasFailed := by
    rw [Bool.eq_iff_iff, hasFailed_ofEvents, hasFailed_ofEvents]
    simp only [FailedIn, h.perm.mem_iff]
  wasDispatched := by
    funext step
    rw [Bool.eq_iff_iff, wasDispatched_iff, wasDispatched_iff]
    simp only [h.perm.mem_iff]
  failures := by
    rw [cleanupFailures_ofEvents, cleanupFailures_ofEvents]
    exact (h.perm.filter _).isEmpty_eq
  files := PathSet.keys_without_eq files_get?_ofEvents files_get?_ofEvents (h.perm.filterMap _)
    fun key => congrFun (reached_eq_of_alike h) (.fileDeleted key)
  directories := PathSet.keys_without_eq directories_get?_ofEvents directories_get?_ofEvents
    (h.perm.filterMap _) fun key => congrFun (reached_eq_of_alike h) (.directoryDeleted key)

namespace Agrees

variable {s t : Summary}

theorem network (h : s.Agrees t) : s.network = t.network :=
  Option.ext fun network => iff_of_eq (congrFun h.shows (.networkCreated network))

theorem built (h : s.Agrees t) : s.built = t.built :=
  SortedMap.ext_get? fun c => Option.ext fun image =>
    iff_of_eq (congrFun h.shows (.imageBuilt c image))

theorem pulled (h : s.Agrees t) : s.pulled = t.pulled :=
  SortedMap.ext_get? fun reference => Option.ext fun image =>
    iff_of_eq (congrFun h.shows (.imagePulled reference image))

theorem created (h : s.Agrees t) : s.created = t.created :=
  SortedMap.ext_get? fun c => Option.ext fun handle =>
    iff_of_eq (congrFun h.shows (.containerCreated c handle))

theorem exited (h : s.Agrees t) : s.exited = t.exited :=
  SortedMap.ext_get? fun c => Option.ext fun exitCode =>
    iff_of_eq (congrFun h.shows (.containerExited c exitCode))

theorem set_eq {s t : NameSet} (h : ∀ c, s.contains c = t.contains c) : s = t :=
  SortedSet.ext_mem fun c => decide_eq_decide.1 (h c)

theorem started (h : s.Agrees t) : s.started = t.started :=
  set_eq fun c => congrFun h.reached (.started c)

theorem healthy (h : s.Agrees t) : s.healthy = t.healthy :=
  set_eq fun c => congrFun h.reached (.healthy c)

theorem ready (h : s.Agrees t) : s.ready = t.ready :=
  set_eq fun c => congrFun h.reached (.ready c)

theorem stopped (h : s.Agrees t) : s.stopped = t.stopped :=
  set_eq fun c => congrFun h.reached (.stopped c)

theorem removed (h : s.Agrees t) : s.removed = t.removed :=
  set_eq fun c => congrFun h.reached (.removed c)

/-! ## What is decided from summaries -/

/-- The same steps may start. -/
theorem nextSteps_eq (h : s.Agrees t) (g : Graph) : g.nextSteps s = g.nextSteps t := by
  have hcaches : s.cachesInitialised = t.cachesInitialised := congrFun h.reached .caches
  have himage : s.image? = t.image? := by
    funext k
    simp only [Summary.image?, h.built, h.pulled]
  have hstages : g.containerStep? s = g.containerStep? t := by
    funext k
    simp only [Graph.containerStep?, Graph.creationStep?, h.created, h.network, h.started,
      h.healthy, h.ready, hcaches, himage]
  have hsteps : g.stepsFor s = g.stepsFor t := by
    funext k
    simp only [Graph.stepsFor, h.created, hstages]
  have hwanted : g.wantedSteps s = g.wantedSteps t := by
    simp only [Graph.wantedSteps, hsteps]
  simp only [Graph.nextSteps, Graph.freshSteps, h.hasFailed, h.exited, h.wasDispatched, hwanted]

theorem result?_eq (h : s.Agrees t) (m : Machine) : m.result? s = m.result? t := by
  simp only [Machine.result?, h.interrupted, h.hasFailed, h.exited]

theorem outstandingContainers_eq (h : s.Agrees t) :
    s.outstandingContainers = t.outstandingContainers := by
  simp only [outstandingContainers, h.created, h.removed]

theorem outstandingNetwork?_eq (h : s.Agrees t) :
    s.outstandingNetwork? = t.outstandingNetwork? := by
  have hdeleted : s.networkDeleted = t.networkDeleted := congrFun h.reached .networkDeleted
  simp only [outstandingNetwork?, h.network, hdeleted]

theorem containerGroups_eq (h : s.Agrees t) (g : Graph) :
    g.containerGroups s = g.containerGroups t := by
  have hrunning : s.isRunning = t.isRunning := by
    funext c
    simp only [isRunning, h.started, h.exited, h.stopped]
  have hgroups : layerGroups s = layerGroups t := by
    funext layer
    simp only [layerGroups, h.created, hrunning]
  rw [Graph.containerGroups, Graph.containerGroups, h.outstandingContainers_eq, hgroups]

end Agrees

/-- Where every path was told in the same spelling first, the same paths are outstanding. -/
theorem outstandingFiles_eq (h : Alike l r) (hspelt : SpeltAlike l r) :
    (ofEvents l).outstandingFiles = (ofEvents r).outstandingFiles := by
  have hfiles : (ofEvents l).files = (ofEvents r).files := by
    refine SortedMap.ext_get? fun key => ?_
    rw [files_get?_ofEvents, files_get?_ofEvents, hspelt.files]
  have hdeleted : SortedMap.contains (ofEvents l).deletedFiles =
      SortedMap.contains (ofEvents r).deletedFiles :=
    funext fun key => congrFun (reached_eq_of_alike h) (.fileDeleted key)
  rw [outstandingFiles, outstandingFiles, PathSet.without, PathSet.without, hfiles, hdeleted]

theorem outstandingDirectories_eq (h : Alike l r) (hspelt : SpeltAlike l r) :
    (ofEvents l).outstandingDirectories = (ofEvents r).outstandingDirectories := by
  have hdirectories : (ofEvents l).directories = (ofEvents r).directories := by
    refine SortedMap.ext_get? fun key => ?_
    rw [directories_get?_ofEvents, directories_get?_ofEvents, hspelt.directories]
  have hdeleted : SortedMap.contains (ofEvents l).deletedDirectories =
      SortedMap.contains (ofEvents r).deletedDirectories :=
    funext fun key => congrFun (reached_eq_of_alike h) (.directoryDeleted key)
  rw [outstandingDirectories, outstandingDirectories, PathSet.without, PathSet.without,
    hdirectories, hdeleted]

end Summary

/-! ## Doing the same by other spellings -/

/-- Whether the steps of one list are the same work as those of the other, one by one. -/
def SameSteps : List Step → List Step → Prop := List.Forall₂ fun step other => step.same other

/-- Whether these commands are there for steps that are the same work. -/
inductive SameCommands : List String → List String → Prop
  | intro {steps others : List Step} (same : SameSteps steps others) :
      SameCommands (steps.filterMap Step.command?) (others.filterMap Step.command?)

/-- Whether two plans do the same, group by group. -/
structure TeardownPlan.Same (p q : TeardownPlan) : Prop where
  groups : List.Forall₂ SameSteps p.groups q.groups
  commands : SameCommands p.commands q.commands

/-- Whether the user is told the same for the same reason. -/
inductive ManualCleanup.Same : ManualCleanup → ManualCleanup → Prop
  | notRequired : Same .notRequired .notRequired
  | afterCleanupFailure {l r : List String} (same : SameCommands l r) :
      Same (.afterCleanupFailure l) (.afterCleanupFailure r)
  | afterTaskFailure {l r : List String} (same : SameCommands l r) :
      Same (.afterTaskFailure l) (.afterTaskFailure r)
  | afterTaskSuccess {l r : List String} (same : SameCommands l r) :
      Same (.afterTaskSuccess l) (.afterTaskSuccess r)

/-- Whether two decisions come to the same. -/
inductive CleanupDecision.Same : CleanupDecision → CleanupDecision → Prop
  | run {p q : TeardownPlan} (same : p.Same q) : Same (.run p) (.run q)
  | skip {manual other : ManualCleanup} (same : manual.Same other) :
      Same (.skip manual) (.skip other)

theorem SameSteps.refl (steps : List Step) : SameSteps steps steps :=
  List.forall₂_same.2 fun step _ => step.same_self

theorem SameSteps.append {a b c d : List Step} (h : SameSteps a b) (h' : SameSteps c d) :
    SameSteps (a ++ c) (b ++ d) :=
  List.rel_append h h'

/-- Paths that are told apart by nothing but their spelling are taken down by the same work. -/
theorem SameSteps.map {f : Path → Step} {ps qs : List Path}
    (hf : ∀ p q : Path, p.key = q.key → (f p).same (f q)) (h : ps.map Path.key = qs.map Path.key) :
    SameSteps (ps.map f) (qs.map f) := by
  have hkeys : List.Forall₂ (fun p q : Path => p.key = q.key) ps qs := by
    rw [← List.forall₂_map_right_iff, ← List.forall₂_map_left_iff, h]
    exact List.forall₂_same.2 fun _ _ => rfl
  rw [SameSteps, List.forall₂_map_left_iff, List.forall₂_map_right_iff]
  exact hkeys.imp hf

namespace Summary.Agrees

variable {s t : Summary}

theorem same_files (h : s.Agrees t) :
    SameSteps (s.outstandingFiles.map .deleteFile) (t.outstandingFiles.map .deleteFile) :=
  .map (fun _ _ hkey => decide_eq_true hkey) h.files

theorem same_directories (h : s.Agrees t) :
    SameSteps (s.outstandingDirectories.map .deleteDirectory)
      (t.outstandingDirectories.map .deleteDirectory) :=
  .map (fun _ _ hkey => decide_eq_true hkey) h.directories

theorem same_leftovers (h : s.Agrees t) : SameSteps s.leftovers t.leftovers := by
  rw [leftovers, leftovers, h.outstandingContainers_eq, h.outstandingNetwork?_eq]
  exact (((SameSteps.refl _).append h.same_files).append h.same_directories).append (.refl _)

theorem same_commands (h : s.Agrees t) : SameCommands (manualCommands s) (manualCommands t) := by
  rw [manualCommands_eq, manualCommands_eq]
  exact ⟨h.same_leftovers⟩

theorem same_teardownPlan (h : s.Agrees t) (g : Graph) :
    (g.teardownPlan s).Same (g.teardownPlan t) where
  groups := by
    rw [Graph.groups_teardownPlan, Graph.groups_teardownPlan, h.containerGroups_eq,
      h.outstandingNetwork?_eq]
    refine List.rel_filter ?_ (List.rel_append ?_ ?_)
    · intro l r hsame
      cases hsame <;> simp
    · exact List.forall₂_same.2 fun steps _ => .refl steps
    · exact .cons (h.same_files.append h.same_directories) (.cons (.refl _) .nil)
  commands := h.same_commands

end Summary.Agrees

theorem manualCommands_eq_of_alike (h : Alike l r) (hspelt : SpeltAlike l r) :
    manualCommands (.ofEvents l) = manualCommands (.ofEvents r) := by
  have hagrees := Summary.agrees_of_alike h
  rw [manualCommands, manualCommands, hagrees.outstandingContainers_eq,
    hagrees.outstandingNetwork?_eq, Summary.outstandingFiles_eq h hspelt,
    Summary.outstandingDirectories_eq h hspelt]

theorem Graph.teardownPlan_eq_of_alike (g : Graph) (h : Alike l r) (hspelt : SpeltAlike l r) :
    g.teardownPlan (.ofEvents l) = g.teardownPlan (.ofEvents r) := by
  have hagrees := Summary.agrees_of_alike h
  have hgroups : (g.teardownPlan (.ofEvents l)).groups = (g.teardownPlan (.ofEvents r)).groups := by
    rw [groups_teardownPlan, groups_teardownPlan, hagrees.containerGroups_eq,
      hagrees.outstandingNetwork?_eq, Summary.deletions, Summary.deletions,
      Summary.outstandingFiles_eq h hspelt, Summary.outstandingDirectories_eq h hspelt]
  exact congrArg₂ TeardownPlan.mk hgroups (manualCommands_eq_of_alike h hspelt)

/-! ## Decisions -/

/-- Whether the two lists lead to the same decisions, up to the spelling of temporary paths. -/
structure Machine.DecidesAlike (m : Machine) (l r : List Event) : Prop where
  next : m.next l = m.next r
  cleanup : ∀ result, (m.cleanup l result).Same (m.cleanup r result)
  leftover : (ManualCleanup.afterCleanup l).Same (.afterCleanup r)
  verdict : ∀ result : TaskResult, result.afterCleanup l = result.afterCleanup r

/-- Whether the two lists lead to the very same decisions. -/
structure Machine.DecidesEqually (m : Machine) (l r : List Event) : Prop where
  next : m.next l = m.next r
  cleanup : ∀ result, m.cleanup l result = m.cleanup r result
  leftover : ManualCleanup.afterCleanup l = .afterCleanup r
  verdict : ∀ result : TaskResult, result.afterCleanup l = result.afterCleanup r

namespace Alike

theorem next_eq (h : Alike l r) (m : Machine) : m.next l = m.next r := by
  have hagrees := Summary.agrees_of_alike h
  simp only [Machine.next, hagrees.result?_eq, hagrees.nextSteps_eq]

theorem verdict_eq (h : Alike l r) (result : TaskResult) :
    result.afterCleanup l = result.afterCleanup r := by
  simp only [TaskResult.afterCleanup, (Summary.agrees_of_alike h).failures]

theorem same_cleanup (h : Alike l r) (m : Machine) (result : TaskResult) :
    (m.cleanup l result).Same (m.cleanup r result) := by
  have hagrees := Summary.agrees_of_alike h
  have hplan := hagrees.same_teardownPlan m.graph
  simp only [Machine.cleanup, hagrees.created]
  split
  · cases result with
    | succeeded => exact .skip (.afterTaskSuccess hplan.commands)
    | failed | cancelled => exact .skip (.afterTaskFailure hplan.commands)
  · exact .run hplan

theorem same_afterCleanup (h : Alike l r) :
    (ManualCleanup.afterCleanup l).Same (.afterCleanup r) := by
  have hsame := (Summary.agrees_of_alike h).same_leftovers
  rw [ManualCleanup.afterCleanup_eq, ManualCleanup.afterCleanup_eq]
  generalize (Summary.ofEvents l).leftovers = steps at hsame ⊢
  generalize (Summary.ofEvents r).leftovers = others at hsame ⊢
  cases hsame with
  | nil => exact .notRequired
  | cons hfirst hrest =>
    simp only [reduceCtorEq, if_false]
    exact .afterCleanupFailure ⟨.cons hfirst hrest⟩

/-- **Lists of events that are alike lead to the same decisions.** -/
theorem decidesAlike (h : Alike l r) (m : Machine) : m.DecidesAlike l r :=
  ⟨h.next_eq m, h.same_cleanup m, h.same_afterCleanup, h.verdict_eq⟩

theorem decidesEqually (h : Alike l r) (hspelt : SpeltAlike l r) (m : Machine) :
    m.DecidesEqually l r where
  next := h.next_eq m
  cleanup result := by
    simp only [Machine.cleanup, (Summary.agrees_of_alike h).created,
      m.graph.teardownPlan_eq_of_alike h hspelt]
  leftover := by
    simp only [ManualCleanup.afterCleanup, manualCommands_eq_of_alike h hspelt]
  verdict := h.verdict_eq

end Alike

/-! ## Events of different steps -/

/-- Whether an event is one that the step may post, be it that the step is broken off. -/
def Step.Posts (step : Step) (e : Event) : Prop :=
  e = .stepStarting step ∨ step.Reports e ∨ Passage.IsEnd step e

/-- What a step posts tells of no milestone but its own. -/
theorem Step.Posts.milestone_eq {step : Step} {e : Event} {k : Milestone} (h : step.Posts e)
    (hk : e.milestone? = some k) : step.milestone = k := by
  rcases h with rfl | h | h | rfl
  · simp [Event.milestone?] at hk
  · simp [h.milestone?] at hk
  · exact h.milestone_eq hk
  · simp [Execution.crashEvent, Event.milestone?] at hk

/-- What a step posts that is announced and then tells this. -/
def Step.posting (told : Step → List Event) (step : Step) : List Event :=
  .stepStarting step :: told step

/-- Whether these are the events of a step that succeeds, from its announcement on. -/
def Step.TellsSuccess (step : Step) (events : List Event) : Prop :=
  ∃ reports last, events = reports ++ [last] ∧ (∀ e ∈ reports, step.Reports e) ∧
    step.Succeeds last

namespace Step.TellsSuccess

variable {step : Step} {events : List Event} {told : Step → List Event}

/-- All but the last event are reports. -/
theorem exists_last (h : step.TellsSuccess events) :
    ∃ last, step.Succeeds last ∧ ∀ e ∈ events, step.Reports e ∨ e = last := by
  obtain ⟨reports, last, rfl, hreports, hlast⟩ := h
  refine ⟨last, hlast, fun e he => ?_⟩
  exact (List.mem_append.1 he).imp (hreports e) List.mem_singleton.1

theorem exists_last_posting (h : step.TellsSuccess (told step)) : ∃ last, step.Succeeds last ∧
    ∀ e ∈ step.posting told, e = .stepStarting step ∨ step.Reports e ∨ e = last := by
  obtain ⟨last, hlast, hall⟩ := h.exists_last
  exact ⟨last, hlast, fun e he => (List.mem_cons.1 he).imp_right (hall e)⟩

theorem posts (h : step.TellsSuccess (told step)) : ∀ e ∈ step.posting told, step.Posts e := by
  obtain ⟨last, hlast, hall⟩ := h.exists_last_posting
  intro e he
  rcases hall e he with rfl | hreport | rfl
  · exact .inl rfl
  · exact .inr (.inl hreport)
  · exact .inr (.inr (.inl (.inl hlast)))

end Step.TellsSuccess

/-- Whether the two lists, coming after these events, tell first of every new path in the same
spelling. -/
structure AgreeOnPaths (log l r : List Event) : Prop where
  files : ∀ p q : Path, p.FirstIn (l.filterMap Event.file?) → q.FirstIn (r.filterMap Event.file?) →
    p.key = q.key → p = q ∨ ∃ known ∈ log.filterMap Event.file?, known.key = p.key
  directories : ∀ p q : Path, p.FirstIn (l.filterMap Event.directory?) →
    q.FirstIn (r.filterMap Event.directory?) →
    p.key = q.key → p = q ∨ ∃ known ∈ log.filterMap Event.directory?, known.key = p.key

namespace Interleaves

variable {steps : List Step} {posted : Step → List Event}

/-- **Events of steps that are there for different things come to lists that are alike**, however
they are interleaved. -/
theorem alike (hl : Interleaves (steps.map posted) l) (hr : Interleaves (steps.map posted) r)
    (honce : (steps.map Step.milestone).Nodup)
    (hown : ∀ step ∈ steps, ∀ e ∈ posted step, step.Posts e) : Alike l r where
  perm := hl.perm.trans hr.perm.symm
  told k := by
    have hagree : (steps.map posted).Pairwise
        (AgreeOn (Option.guard fun e : Event => e.milestone? = some k)) := by
      refine List.pairwise_map.2 ((List.pairwise_map.1 honce).imp_of_mem ?_)
      intro step other hs ho hne e he e' he' b b' hb hb'
      have hk := (hown step hs e he).milestone_eq
        (of_decide_eq_true (Option.guard_eq_some_iff.1 hb).2)
      have hk' := (hown other ho e' he').milestone_eq
        (of_decide_eq_true (Option.guard_eq_some_iff.1 hb').2)
      exact absurd (hk.trans hk'.symm) hne
    have hsame := hl.filterMap_eq hr hagree
    rwa [List.filterMap_eq_filter] at hsame

theorem find?_filterMap (told : Event → Option Path) (events : List Event) (key : PathKey) :
    (events.filterMap told).find? (·.key = key) =
      events.findSome? fun e => (told e).filter (·.key = key) := by
  rw [← List.head?_filter, List.filter_filterMap, List.head?_filterMap]

/-- A path is told in the same spelling first, unless the steps disagree about it. -/
theorem find?_append_eq {log : List Event} {told : Event → Option Path}
    (hl : Interleaves (steps.map posted) l) (hr : Interleaves (steps.map posted) r)
    (hspelt : ∀ step ∈ steps, ∀ other ∈ steps, ∀ p q : Path,
      p.FirstIn ((posted step).filterMap told) → q.FirstIn ((posted other).filterMap told) →
      p.key = q.key → p = q ∨ ∃ known ∈ log.filterMap told, known.key = p.key) (key : PathKey) :
    ((log ++ l).filterMap told).find? (·.key = key) =
      ((log ++ r).filterMap told).find? (·.key = key) := by
  rw [List.filterMap_append, List.filterMap_append, List.find?_append, List.find?_append]
  cases hlog : (log.filterMap told).find? (·.key = key) with
  | some known => rfl
  | none =>
    rw [Option.none_or, Option.none_or, find?_filterMap, find?_filterMap]
    refine hl.findSome?_eq hr ?_
    intro told₁ h₁ told₂ h₂ p q hp hq
    obtain ⟨step, hstep, rfl⟩ := List.mem_map.1 h₁
    obtain ⟨other, hother, rfl⟩ := List.mem_map.1 h₂
    rw [← find?_filterMap] at hp hq
    have hkp : p.key = key := by simpa using List.find?_some hp
    have hkq : q.key = key := by simpa using List.find?_some hq
    have hfirst : p.FirstIn ((posted step).filterMap told) := by rwa [← hkp] at hp
    have hfirst' : q.FirstIn ((posted other).filterMap told) := by rwa [← hkq] at hq
    rcases hspelt step hstep other hother p q hfirst hfirst' (hkp.trans hkq.symm) with
      hsame | ⟨known, hknown, hkey⟩
    · exact hsame
    · exact absurd (hkey.trans hkp) (by simpa using List.find?_eq_none.1 hlog known hknown)

theorem speltAlike {log : List Event} (hl : Interleaves (steps.map posted) l)
    (hr : Interleaves (steps.map posted) r)
    (hspelt : ∀ step ∈ steps, ∀ other ∈ steps, AgreeOnPaths log (posted step) (posted other)) :
    SpeltAlike (log ++ l) (log ++ r) where
  files := hl.find?_append_eq hr fun step hs other ho => (hspelt step hs other ho).files
  directories := hl.find?_append_eq hr fun step hs other ho =>
    (hspelt step hs other ho).directories

end Interleaves

end Stevedore
