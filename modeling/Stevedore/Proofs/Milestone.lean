import Stevedore.Event

/-!
What a step tells while it runs, and what it brings about.

A step that is carried out posts events of its own: first how far it has come (`Step.Reports`),
at last how it ended (`Step.Succeeds`, `Step.Fails`). What the success of a step means for the run
is a `Milestone`. It forgets what the engine chose: a container that is created is the same
milestone whatever image, network and handle the step and its success carry. So two steps with the
same milestone are two attempts at one thing, and `startedIn` with `Step.milestone` is what the
laws of a run are stated about.
-/

namespace Stevedore

/-- Something that a run brings about. -/
inductive Milestone where
  | network
  | caches
  | built (container : String)
  | pulled (reference : String)
  | created (container : String)
  | started (container : String)
  | healthy (container : String)
  | ready (container : String)
  | exited (container : String)
  | stopped (container : String)
  | removed (container : String)
  | fileDeleted (path : PathKey)
  | directoryDeleted (path : PathKey)
  | networkDeleted
deriving DecidableEq

/-- What the step is there to bring about. -/
def Step.milestone : Step → Milestone
  | createNetwork => .network
  | initialiseCaches => .caches
  | buildImage c _ => .built c
  | pullImage reference => .pulled reference
  | createContainer c _ _ => .created c
  | startContainer c _ => .started c
  | awaitHealth c _ => .healthy c
  | runSetupCommands c _ => .ready c
  | runContainer c _ => .exited c
  | stopContainer c _ => .stopped c
  | removeContainer c _ => .removed c
  | deleteFile path => .fileDeleted path.key
  | deleteDirectory path => .directoryDeleted path.key
  | deleteNetwork _ => .networkDeleted

namespace Event

/-- What the event tells to have been brought about. -/
def milestone? : Event → Option Milestone
  | networkCreated _ => some .network
  | cachesInitialised => some .caches
  | imageBuilt c _ => some (.built c)
  | imagePulled reference _ => some (.pulled reference)
  | containerCreated c _ => some (.created c)
  | containerStarted c => some (.started c)
  | containerHealthy c => some (.healthy c)
  | containerReady c => some (.ready c)
  | containerExited c _ => some (.exited c)
  | containerStopped c => some (.stopped c)
  | containerRemoved c => some (.removed c)
  | fileDeleted path => some (.fileDeleted path.key)
  | directoryDeleted path => some (.directoryDeleted path.key)
  | networkDeleted _ => some .networkDeleted
  | _ => none

/-- The step that the event announces. -/
def startedStep? : Event → Option Step
  | stepStarting step => some step
  | _ => none

end Event

/-- The steps that were started, in order. -/
def startedIn (events : List Event) : List Step := events.filterMap Event.startedStep?

/-- Whether the events tell of the milestone. -/
def Milestone.ReachedIn (k : Milestone) (events : List Event) : Prop :=
  ∃ e ∈ events, e.milestone? = some k

/-- The container that the milestone is about. -/
def Milestone.container? : Milestone → Option String
  | built c | created c | started c | healthy c | ready c | exited c | stopped c | removed c =>
    some c
  | network | caches | pulled _ | fileDeleted _ | directoryDeleted _ | networkDeleted => none

@[simp] theorem Step.container?_milestone (step : Step) :
    step.milestone.container? = step.container? := by
  cases step <;> rfl

/-- The event that tells of the milestone, where it carries nothing besides. -/
def Milestone.event? : Milestone → Option Event
  | caches => some .cachesInitialised
  | started c => some (.containerStarted c)
  | healthy c => some (.containerHealthy c)
  | ready c => some (.containerReady c)
  | stopped c => some (.containerStopped c)
  | removed c => some (.containerRemoved c)
  | _ => none

/-- Whether the events make the task fail. -/
def FailedIn (events : List Event) : Prop := ∃ e ∈ events, e.isTaskFailure = true

/-! ## What a step posts -/

namespace Step

/-- The events by which a step tells how far it has come. -/
inductive Reports : Step → Event → Prop
  | building (c tags progress) : Reports (buildImage c tags) (.imageBuildProgress c progress)
  | pulling (reference message) :
      Reports (pullImage reference) (.imagePullProgress reference message)
  | file (c image network path) : Reports (createContainer c image network) (.fileCreated c path)
  | directory (c image network path) :
      Reports (createContainer c image network) (.directoryCreated c path)
  | setup (c handle command index) :
      Reports (runSetupCommands c handle) (.setupCommandStarting c command index)

/-- The events by which a step tells that it succeeded. Images, networks, handles and exit codes
are whatever the engine says. -/
inductive Succeeds : Step → Event → Prop
  | network (network) : Succeeds createNetwork (.networkCreated network)
  | caches : Succeeds initialiseCaches .cachesInitialised
  | built (c tags image) : Succeeds (buildImage c tags) (.imageBuilt c image)
  | pulled (reference image) : Succeeds (pullImage reference) (.imagePulled reference image)
  | created (c image network handle) :
      Succeeds (createContainer c image network) (.containerCreated c handle)
  | started (c handle) : Succeeds (startContainer c handle) (.containerStarted c)
  | healthy (c handle) : Succeeds (awaitHealth c handle) (.containerHealthy c)
  | ready (c handle) : Succeeds (runSetupCommands c handle) (.containerReady c)
  | exited (c handle exitCode) : Succeeds (runContainer c handle) (.containerExited c exitCode)
  | stopped (c handle) : Succeeds (stopContainer c handle) (.containerStopped c)
  | removed (c handle) : Succeeds (removeContainer c handle) (.containerRemoved c)
  | fileDeleted (path) : Succeeds (deleteFile path) (.fileDeleted path)
  | directoryDeleted (path) : Succeeds (deleteDirectory path) (.directoryDeleted path)
  | networkDeleted (network) : Succeeds (deleteNetwork network) (.networkDeleted network)

/-- The events by which a step tells that it failed. -/
inductive Fails : Step → Event → Prop
  | network (message) : Fails createNetwork (.networkCreationFailed message)
  | caches (message) : Fails initialiseCaches (.cacheInitialisationFailed message)
  | built (c tags message) : Fails (buildImage c tags) (.imageBuildFailed c message)
  | pulled (reference message) : Fails (pullImage reference) (.imagePullFailed reference message)
  | created (c image network message) :
      Fails (createContainer c image network) (.containerCreationFailed c message)
  | started (c handle message) : Fails (startContainer c handle) (.containerRunFailed c message)
  | healthy (c handle message) : Fails (awaitHealth c handle) (.containerNotHealthy c message)
  | setupFailed (c handle command exitCode output) :
      Fails (runSetupCommands c handle) (.setupCommandFailed c command exitCode output)
  | setupNotRun (c handle command message) :
      Fails (runSetupCommands c handle) (.setupCommandNotRun c command message)
  | exited (c handle message) : Fails (runContainer c handle) (.containerRunFailed c message)
  | stopped (c handle message) : Fails (stopContainer c handle) (.containerStopFailed c message)
  | removed (c handle message) :
      Fails (removeContainer c handle) (.containerRemovalFailed c message)
  | fileDeleted (path message) : Fails (deleteFile path) (.fileDeletionFailed path message)
  | directoryDeleted (path message) :
      Fails (deleteDirectory path) (.directoryDeletionFailed path message)
  | networkDeleted (network message) :
      Fails (deleteNetwork network) (.networkDeletionFailed network message)

/-- The events that end a step. -/
def EndsWith (step : Step) (e : Event) : Prop := step.Succeeds e ∨ step.Fails e

/-- Whether the step takes something down. -/
def isTeardown : Step → Bool
  | stopContainer .. | removeContainer .. | deleteFile _ | deleteDirectory _ | deleteNetwork _ =>
    true
  | _ => false

variable {step : Step} {e : Event}

theorem Reports.milestone? (h : step.Reports e) : e.milestone? = none := by
  cases h <;> rfl

/-- What takes something down does so at once. -/
theorem Reports.isTeardown (h : step.Reports e) : step.isTeardown = false := by
  cases h <;> rfl

theorem Reports.startedStep? (h : step.Reports e) : e.startedStep? = none := by
  cases h <;> rfl

theorem Reports.isTaskFailure (h : step.Reports e) : e.isTaskFailure = false := by
  cases h <;> rfl

theorem Succeeds.isTaskFailure (h : step.Succeeds e) : e.isTaskFailure = false := by
  cases h <;> rfl

theorem Succeeds.milestone? (h : step.Succeeds e) : e.milestone? = some step.milestone := by
  cases h <;> rfl

theorem Fails.milestone? (h : step.Fails e) : e.milestone? = none := by
  cases h <;> rfl

/-- A step that does not take anything down makes the task fail when it fails. -/
theorem Fails.isTaskFailure (h : step.Fails e) (hs : step.isTeardown = false) :
    e.isTaskFailure = true := by
  cases h <;> first | rfl | simp [isTeardown] at hs

theorem EndsWith.startedStep? (h : step.EndsWith e) : e.startedStep? = none := by
  rcases h with h | h <;> cases h <;> rfl

/-- What ends a step tells of no milestone but the step's own. -/
theorem EndsWith.milestone_eq {k : Milestone} (h : step.EndsWith e)
    (hk : e.milestone? = some k) : step.milestone = k := by
  rcases h with h | h
  · rw [h.milestone?] at hk
    exact Option.some.inj hk
  · rw [h.milestone?] at hk
    simp at hk

end Step

/-! ## Lists of events that grow -/

@[simp] theorem startedIn_nil : startedIn [] = [] := rfl

@[simp] theorem startedIn_append (l r : List Event) :
    startedIn (l ++ r) = startedIn l ++ startedIn r := by
  simp [startedIn]

@[simp] theorem mem_startedIn {step : Step} {events : List Event} :
    step ∈ startedIn events ↔ .stepStarting step ∈ events := by
  simp only [startedIn, List.mem_filterMap]
  constructor
  · rintro ⟨e, he, hs⟩
    cases e <;> simp only [Event.startedStep?, Option.some.injEq, reduceCtorEq] at hs
    exact hs ▸ he
  · intro h
    exact ⟨_, h, rfl⟩

theorem startedIn_singleton_of_none {e : Event} (h : e.startedStep? = none) :
    startedIn [e] = [] := by
  simp [startedIn, h]

@[simp] theorem startedIn_singleton_stepStarting (step : Step) :
    startedIn [.stepStarting step] = [step] := rfl

theorem Milestone.reachedIn_iff {k : Milestone} {e : Event} (h : k.event? = some e)
    {events : List Event} : k.ReachedIn events ↔ e ∈ events := by
  constructor
  · rintro ⟨e', he, hk⟩
    cases e' <;> simp only [Event.milestone?, Option.some.injEq, reduceCtorEq] at hk <;>
      subst hk <;> simp only [event?, Option.some.injEq, reduceCtorEq] at h <;>
      exact h ▸ he
  · intro he
    refine ⟨e, he, ?_⟩
    cases k <;> simp only [event?, Option.some.injEq, reduceCtorEq] at h <;> rw [← h] <;> rfl

theorem Milestone.ReachedIn.mono {k : Milestone} {l r : List Event} (h : k.ReachedIn l)
    (hs : l ⊆ r) : k.ReachedIn r := by
  obtain ⟨e, he, hk⟩ := h
  exact ⟨e, hs he, hk⟩

theorem Milestone.reachedIn_concat {k : Milestone} {events : List Event} {e : Event} :
    k.ReachedIn (events ++ [e]) ↔ k.ReachedIn events ∨ e.milestone? = some k := by
  simp only [ReachedIn, List.mem_append, List.mem_singleton, or_and_right, exists_or,
    exists_eq_left]

theorem failedIn_concat {events : List Event} {e : Event} :
    FailedIn (events ++ [e]) ↔ FailedIn events ∨ e.isTaskFailure = true := by
  simp only [FailedIn, List.mem_append, List.mem_singleton, or_and_right, exists_or,
    exists_eq_left]

theorem FailedIn.mono {l r : List Event} (h : FailedIn l) (hs : l ⊆ r) : FailedIn r := by
  obtain ⟨e, he, hf⟩ := h
  exact ⟨e, hs he, hf⟩

end Stevedore
