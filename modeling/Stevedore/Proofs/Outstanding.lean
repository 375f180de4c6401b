import Stevedore.Proofs.Summary
import Stevedore.TeardownPlan

/-!
What a run has made and not undone yet, as its events tell it.

`Milestone.DueIn` says what is left to be brought about: a container that was created is to be
removed, and stopped before that if it still runs; a file that was made is to be deleted. It does
not say which handle or spelling to use for this. That is the handle told last, as the engine may
have made the container more than once, and the spelling told first, as all spellings are one path
(`Step.RecordedIn`). A summary keeps both, so what it lists as left over is exactly what is due
(`mem_leftovers`), and each thing once, in the order in which a user is told about it
(`pairwise_leftovers`).
-/

namespace Stevedore

/-! ## What was told last, and what was told first -/

/-- Whether `e` is the last event that tells of the milestone. -/
def Milestone.LastIn (k : Milestone) (e : Event) (events : List Event) : Prop :=
  (events.filter fun e => e.milestone? = some k).getLast? = some e

instance (k : Milestone) (e : Event) (events : List Event) : Decidable (k.LastIn e events) :=
  inferInstanceAs (Decidable (_ = _))

/-- Whether no other spelling of the path comes before this one. -/
def Path.FirstIn (path : Path) (paths : List Path) : Prop :=
  paths.find? (·.key = path.key) = some path

instance (path : Path) (paths : List Path) : Decidable (path.FirstIn paths) :=
  inferInstanceAs (Decidable (_ = _))

namespace Event

/-- Whether a summary keeps all that the event tells, until more is told of the same. -/
def isKept : Event → Bool
  | networkCreated _ | imageBuilt .. | imagePulled .. | containerCreated ..
  | containerExited .. => true
  | _ => false

/-- The temporary file that the event tells to have been made. -/
def file? : Event → Option Path
  | fileCreated _ path => some path
  | _ => none

/-- The temporary directory that the event tells to have been made. -/
def directory? : Event → Option Path
  | directoryCreated _ path => some path
  | _ => none

end Event

namespace Milestone

variable {k : Milestone} {e last : Event} {events : List Event}

theorem LastIn.mem (h : k.LastIn e events) : e ∈ events :=
  (List.mem_filter.1 (List.mem_of_getLast? h)).1

theorem exists_lastIn : (∃ e, k.LastIn e events) ↔ k.ReachedIn events := by
  constructor
  · rintro ⟨e, he⟩
    have hmem := List.mem_filter.1 (List.mem_of_getLast? he)
    exact ⟨e, hmem.1, of_decide_eq_true hmem.2⟩
  · rintro ⟨e, he, hk⟩
    have hmem : e ∈ events.filter fun e => e.milestone? = some k :=
      List.mem_filter.2 ⟨he, decide_eq_true hk⟩
    exact ⟨_, List.getLast?_eq_some_getLast (List.ne_nil_of_mem hmem)⟩

theorem lastIn_concat : k.LastIn e (events ++ [last]) ↔
    last.milestone? = some k ∧ last = e ∨ last.milestone? ≠ some k ∧ k.LastIn e events := by
  unfold LastIn
  rw [List.filter_append]
  by_cases h : last.milestone? = some k <;> simp [h]

end Milestone

theorem Path.exists_firstIn {path : Path} {paths : List Path} (h : path ∈ paths) :
    ∃ first : Path, first.key = path.key ∧ first.FirstIn paths := by
  have hsome : (paths.find? (·.key = path.key)).isSome :=
    List.find?_isSome.2 ⟨path, h, decide_eq_true rfl⟩
  obtain ⟨first, hfirst⟩ := Option.isSome_iff_exists.1 hsome
  have hkey : first.key = path.key := by simpa using List.find?_some hfirst
  refine ⟨first, hkey, ?_⟩
  rw [← hkey] at hfirst
  exact hfirst

theorem Path.FirstIn.mem {path : Path} {paths : List Path} (h : path.FirstIn paths) :
    path ∈ paths :=
  List.mem_of_find?_eq_some h

/-! ## What is due -/

/-- Whether this is left to be brought about. -/
def Milestone.DueIn (events : List Event) : Milestone → Prop
  | removed c => (created c).ReachedIn events ∧ ¬ (removed c).ReachedIn events
  | stopped c => ((created c).ReachedIn events ∧ ¬ (removed c).ReachedIn events) ∧
      (started c).ReachedIn events ∧ ¬ (exited c).ReachedIn events ∧
      ¬ (stopped c).ReachedIn events
  | fileDeleted key => (∃ path ∈ events.filterMap Event.file?, path.key = key) ∧
      ¬ (fileDeleted key).ReachedIn events
  | directoryDeleted key => (∃ path ∈ events.filterMap Event.directory?, path.key = key) ∧
      ¬ (directoryDeleted key).ReachedIn events
  | networkDeleted => network.ReachedIn events ∧ ¬ networkDeleted.ReachedIn events
  | _ => False

namespace Step

/-- Whether the step calls what it takes down by the name under which the events know it. -/
def RecordedIn (events : List Event) : Step → Prop
  | stopContainer c handle | removeContainer c handle =>
    (Milestone.created c).LastIn (.containerCreated c handle) events
  | deleteFile path => path.FirstIn (events.filterMap Event.file?)
  | deleteDirectory path => path.FirstIn (events.filterMap Event.directory?)
  | deleteNetwork network => Milestone.network.LastIn (.networkCreated network) events
  | _ => False

/-- The command by which a user does what the step does. What is removed by force need not be
stopped. -/
def command? : Step → Option String
  | removeContainer _ handle => some s!"docker rm --force --volumes {handle.id}"
  | deleteFile path => some s!"rm {path}"
  | deleteDirectory path => some s!"rm -rf {path}"
  | deleteNetwork network => some s!"docker network rm {network.id}"
  | _ => none

/-- The place of a step among those that a user is told of. -/
def rank : Step → Nat
  | removeContainer .. => 0
  | deleteFile _ => 1
  | deleteDirectory _ => 2
  | _ => 3

/-- Whether a user is told of the first step before the second: containers by name, then files and
directories by their components, then the network. -/
def ListedBefore : Step → Step → Prop
  | removeContainer c _, removeContainer d _ => compare c d = .lt
  | deleteFile path, deleteFile other => compare path.key other.key = .lt
  | deleteDirectory path, deleteDirectory other => compare path.key other.key = .lt
  | step, other => step.rank < other.rank

variable {step other : Step}

theorem ListedBefore.of_rank_lt (h : step.rank < other.rank) : step.ListedBefore other := by
  unfold ListedBefore
  split
  · exact absurd h (Nat.lt_irrefl _)
  · exact absurd h (Nat.lt_irrefl _)
  · exact absurd h (Nat.lt_irrefl _)
  · exact h

/-- Steps of which one is listed before the other are there for two things. -/
theorem ListedBefore.milestone_ne (h : step.ListedBefore other) (hs : step.command?.isSome)
    (ho : other.command?.isSome) : step.milestone ≠ other.milestone := by
  intro heq
  cases step <;> simp only [command?, Option.isSome_none, Bool.false_eq_true] at hs <;>
    cases other <;> simp only [command?, Option.isSome_none, Bool.false_eq_true] at ho <;>
    simp only [milestone, Milestone.removed.injEq, Milestone.fileDeleted.injEq,
      Milestone.directoryDeleted.injEq, reduceCtorEq] at heq <;>
    simp [ListedBefore, rank, heq] at h

end Step

/-! ## What a summary keeps -/

namespace Summary

variable {events : List Event}

theorem shows_noteState {s : Summary} {e last : Event} {k : Milestone} (hkept : e.isKept = true)
    (hk : e.milestone? = some k) : (s.noteState last).shows e ↔
      last.milestone? = some k ∧ last = e ∨ last.milestone? ≠ some k ∧ s.shows e := by
  cases last with
  | stepStarting step =>
    simp only [noteState]
    split <;> cases e <;> simp [Event.milestone?, shows]
  | _ =>
    cases e <;> simp only [Event.isKept, Bool.false_eq_true] at hkept <;>
      obtain rfl := Option.some.inj hk <;>
      simp only [noteState, shows, Event.milestone?, SortedMap.get?_insert] <;> grind

/-- A summary keeps what was told last. -/
theorem shows_ofEvents {e : Event} {k : Milestone} (hkept : e.isKept = true)
    (hk : e.milestone? = some k) : (ofEvents events).shows e ↔ k.LastIn e events := by
  induction events using ofEvents_induction with
  | nil => cases e <;> simp [shows, Milestone.LastIn]
  | snoc events last s ih =>
    rw [Milestone.lastIn_concat, ← ih, note, shows_noteState hkept hk, shows_noteFailure]

/-- The handle of a container is the one that was told last. -/
theorem created_get?_ofEvents {c : String} {handle : Handle} :
    (ofEvents events).created.get? c = some handle ↔
      (Milestone.created c).LastIn (.containerCreated c handle) events :=
  shows_ofEvents (e := .containerCreated c handle) rfl rfl

theorem network_ofEvents {network : Network} :
    (ofEvents events).network = some network ↔
      Milestone.network.LastIn (.networkCreated network) events :=
  shows_ofEvents (e := .networkCreated network) rfl rfl

/-- A set of paths that grows by what the events tell keeps the spelling that was told first. -/
theorem get?_ofEvents {set : Summary → PathSet} {told : Event → Option Path}
    (hstart : set {} = ∅)
    (hnote : ∀ s e, set (s.note e) = ((told e).map (set s).add).getD (set s)) (key : PathKey) :
    SortedMap.get? (set (ofEvents events)) key =
      (events.filterMap told).find? (·.key = key) := by
  induction events using ofEvents_induction with
  | nil =>
    rw [hstart]
    rfl
  | snoc events e s ih =>
    rw [List.filterMap_append, List.find?_append, ← ih, hnote]
    cases htold : told e with
    | none => simp [htold]
    | some path =>
      rw [Option.map_some, Option.getD_some, PathSet.get?_add, List.filterMap_cons_some htold,
        List.filterMap_nil, List.find?_singleton]
      simp only [decide_eq_true_eq, eq_comm (a := key)]

theorem files_get?_ofEvents (key : PathKey) :
    SortedMap.get? (ofEvents events).files key =
      (events.filterMap Event.file?).find? (·.key = key) := by
  refine get?_ofEvents rfl ?_ key
  intro s e
  cases e with
  | stepStarting step =>
    simp only [note, noteState]
    split <;> rfl
  | _ => rfl

theorem directories_get?_ofEvents (key : PathKey) :
    SortedMap.get? (ofEvents events).directories key =
      (events.filterMap Event.directory?).find? (·.key = key) := by
  refine get?_ofEvents rfl ?_ key
  intro s e
  cases e with
  | stepStarting step =>
    simp only [note, noteState]
    split <;> rfl
  | _ => rfl

end Summary

/-! ## What is left over -/

namespace PathSet

variable {s t : PathSet} {paths : List Path}

/-- Of a set that keeps the first spellings, `without` keeps the first spellings. -/
theorem mem_without {path : Path}
    (hs : ∀ key, SortedMap.get? s key = paths.find? (·.key = key)) :
    path ∈ s.without t ↔ path.FirstIn paths ∧ SortedMap.contains t path.key = false := by
  constructor
  · intro h
    obtain ⟨⟨key, first⟩, hmem, rfl⟩ := List.mem_map.1 h
    obtain ⟨hentry, hnot⟩ := List.mem_filter.1 hmem
    rw [SortedMap.mem_entries_iff, hs] at hentry
    obtain rfl : first.key = key := by simpa using List.find?_some hentry
    exact ⟨hentry, by simpa using hnot⟩
  · rintro ⟨hfirst, hnot⟩
    refine List.mem_map.2 ⟨(path.key, path), List.mem_filter.2 ⟨?_, by simpa using hnot⟩, rfl⟩
    exact SortedMap.mem_entries_iff.2 ((hs path.key).trans hfirst)

theorem pairwise_without (hs : ∀ key, SortedMap.get? s key = paths.find? (·.key = key)) :
    (s.without t).Pairwise fun path other => compare path.key other.key = .lt := by
  have hkey : ∀ e ∈ (s.filter fun k _ => !SortedMap.contains t k).entries, e.2.key = e.1 := by
    intro e he
    have hentry := (List.mem_filter.1 he).1
    rw [SortedMap.mem_entries_iff, hs] at hentry
    simpa using List.find?_some hentry
  refine List.pairwise_map.2 (List.Pairwise.imp_of_mem ?_ (SortedMap.ascending _))
  intro e e' he he' hlt
  rwa [hkey e he, hkey e' he']

end PathSet

namespace Summary

variable {events : List Event}

/-- The steps that undo what is left over, in the order in which a user is told about it. -/
def leftovers (s : Summary) : List Step :=
  (s.outstandingContainers.entries.map fun e => .removeContainer e.1 e.2) ++
  s.outstandingFiles.map .deleteFile ++ s.outstandingDirectories.map .deleteDirectory ++
  s.outstandingNetwork?.toList.map .deleteNetwork

/-- A user is told how to undo everything that is left over. -/
theorem manualCommands_eq (s : Summary) :
    manualCommands s = s.leftovers.filterMap Step.command? := by
  simp only [manualCommands, leftovers, List.filterMap_append, List.filterMap_map, SortedMap.values,
    List.map_map, Function.comp_def, Step.command?, List.filterMap_eq_map']

theorem mem_outstandingContainers {c : String} {handle : Handle} :
    (c, handle) ∈ (ofEvents events).outstandingContainers.entries ↔
      (Milestone.created c).LastIn (.containerCreated c handle) events ∧
        ¬ (Milestone.removed c).ReachedIn events := by
  rw [outstandingContainers, SortedMap.filter, List.mem_filter, SortedMap.mem_entries_iff,
    created_get?_ofEvents, ← reached_ofEvents events (.removed c)]
  simp [reached]

theorem mem_outstandingFiles {path : Path} :
    path ∈ (ofEvents events).outstandingFiles ↔ path.FirstIn (events.filterMap Event.file?) ∧
      ¬ (Milestone.fileDeleted path.key).ReachedIn events := by
  rw [outstandingFiles, PathSet.mem_without files_get?_ofEvents,
    ← reached_ofEvents events (.fileDeleted path.key)]
  simp [reached]

theorem mem_outstandingDirectories {path : Path} :
    path ∈ (ofEvents events).outstandingDirectories ↔
      path.FirstIn (events.filterMap Event.directory?) ∧
        ¬ (Milestone.directoryDeleted path.key).ReachedIn events := by
  rw [outstandingDirectories, PathSet.mem_without directories_get?_ofEvents,
    ← reached_ofEvents events (.directoryDeleted path.key)]
  simp [reached]

theorem outstandingNetwork?_eq_some {network : Network} :
    (ofEvents events).outstandingNetwork? = some network ↔
      Milestone.network.LastIn (.networkCreated network) events ∧
        ¬ Milestone.networkDeleted.ReachedIn events := by
  rw [outstandingNetwork?, ← network_ofEvents, ← reached_ofEvents events .networkDeleted]
  simp [reached, and_comm]

/-- What is left over is what is due, called as it was recorded, as far as a user can undo it. -/
theorem mem_leftovers {step : Step} : step ∈ (ofEvents events).leftovers ↔
    step.command?.isSome ∧ step.milestone.DueIn events ∧ step.RecordedIn events := by
  cases step with
  | removeContainer c handle =>
    have hlast : (Milestone.created c).LastIn (.containerCreated c handle) events →
        (Milestone.created c).ReachedIn events := fun h => Milestone.exists_lastIn.1 ⟨_, h⟩
    have hmem : Step.removeContainer c handle ∈ (ofEvents events).leftovers ↔
        (c, handle) ∈ (ofEvents events).outstandingContainers.entries := by
      simp [leftovers]
    rw [hmem, mem_outstandingContainers]
    simp only [Step.command?, Step.milestone, Milestone.DueIn, Step.RecordedIn]
    tauto
  | deleteFile path =>
    have hfirst : path.FirstIn (events.filterMap Event.file?) →
        ∃ p ∈ events.filterMap Event.file?, p.key = path.key := fun h => ⟨path, h.mem, rfl⟩
    have hmem : Step.deleteFile path ∈ (ofEvents events).leftovers ↔
        path ∈ (ofEvents events).outstandingFiles := by
      simp [leftovers]
    rw [hmem, mem_outstandingFiles]
    simp only [Step.command?, Step.milestone, Milestone.DueIn, Step.RecordedIn]
    tauto
  | deleteDirectory path =>
    have hfirst : path.FirstIn (events.filterMap Event.directory?) →
        ∃ p ∈ events.filterMap Event.directory?, p.key = path.key := fun h => ⟨path, h.mem, rfl⟩
    have hmem : Step.deleteDirectory path ∈ (ofEvents events).leftovers ↔
        path ∈ (ofEvents events).outstandingDirectories := by
      simp [leftovers]
    rw [hmem, mem_outstandingDirectories]
    simp only [Step.command?, Step.milestone, Milestone.DueIn, Step.RecordedIn]
    tauto
  | deleteNetwork network =>
    have hlast : Milestone.network.LastIn (.networkCreated network) events →
        Milestone.network.ReachedIn events := fun h => Milestone.exists_lastIn.1 ⟨_, h⟩
    have hmem : Step.deleteNetwork network ∈ (ofEvents events).leftovers ↔
        (ofEvents events).outstandingNetwork? = some network := by
      simp [leftovers]
    rw [hmem, outstandingNetwork?_eq_some]
    simp only [Step.command?, Step.milestone, Milestone.DueIn, Step.RecordedIn]
    tauto
  | _ => simp [leftovers, Step.command?]

/-- What is left over stands in the order in which a user is told about it. -/
theorem pairwise_leftovers : (ofEvents events).leftovers.Pairwise Step.ListedBefore := by
  have containers : ((ofEvents events).outstandingContainers.entries.map fun e =>
      Step.removeContainer e.1 e.2).Pairwise Step.ListedBefore :=
    List.pairwise_map.2 (ofEvents events).outstandingContainers.ascending
  have files : ((ofEvents events).outstandingFiles.map Step.deleteFile).Pairwise
      Step.ListedBefore :=
    List.pairwise_map.2 (PathSet.pairwise_without files_get?_ofEvents)
  have directories : ((ofEvents events).outstandingDirectories.map Step.deleteDirectory).Pairwise
      Step.ListedBefore :=
    List.pairwise_map.2 (PathSet.pairwise_without directories_get?_ofEvents)
  have network : ((ofEvents events).outstandingNetwork?.toList.map Step.deleteNetwork).Pairwise
      Step.ListedBefore := by
    cases (ofEvents events).outstandingNetwork? <;> simp
  have hrank : ∀ {α : Type} {f : α → Step} {n : Nat} (l : List α), (∀ a, (f a).rank = n) →
      ∀ step ∈ l.map f, step.rank = n := by
    intro α f n l hf step hs
    obtain ⟨a, -, rfl⟩ := List.mem_map.1 hs
    exact hf a
  have h₀ := hrank (ofEvents events).outstandingContainers.entries
    (f := fun e => .removeContainer e.1 e.2) fun _ => rfl
  have h₁ := hrank (ofEvents events).outstandingFiles (f := .deleteFile) fun _ => rfl
  have h₂ := hrank (ofEvents events).outstandingDirectories (f := .deleteDirectory) fun _ => rfl
  have h₃ := hrank (ofEvents events).outstandingNetwork?.toList (f := .deleteNetwork) fun _ => rfl
  rw [leftovers, List.pairwise_append, List.pairwise_append, List.pairwise_append]
  refine ⟨⟨⟨containers, files, ?_⟩, directories, ?_⟩, network, ?_⟩
  all_goals
    intro step hs other ho
    refine .of_rank_lt ?_
    grind

/-- Nothing is left over twice. -/
theorem nodup_milestone_leftovers : ((ofEvents events).leftovers.map Step.milestone).Nodup := by
  refine List.pairwise_map.2 (pairwise_leftovers.imp_of_mem ?_)
  intro step other hs ho hbefore
  exact hbefore.milestone_ne (mem_leftovers.1 hs).1 (mem_leftovers.1 ho).1

end Summary

end Stevedore
