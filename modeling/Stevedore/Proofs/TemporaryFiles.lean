import Stevedore.Proofs.HostChanges
import Stevedore.Proofs.RunNames

/-!
Nothing temporary stays, on files held in memory.

A run that is cleaned up leaves the temporary directory as it found it, but for the directories of
caches (`Scene.temporary_gone`). Any call may fail, any path may refuse to be written, and the run
may be interrupted at any point; only removals must not be refused, and nobody else may use the
paths that the run reserves for itself.

The proof follows the changes on record one after the other (`InjectedFiles.replay`). At any time
whatever there is at a reserved path has been made by a change on record, and elsewhere the tree is
the first one with the directories of caches (`Tidy`). Cleanup only takes away; so what is there in
the end was there all along, and the removal that cleanup has asked for would have taken it away
(`not_left`).
-/

namespace Stevedore

/-! ## Files after changes -/

/-- The tree after a change that is made. -/
def FileTree.after (t : FileTree) : FileChange → FileTree
  | .write path contents => t.addFile path contents
  | .createDirectory path => t.addDirectory path
  | .removeFile path => t.drop path
  | .removeDirectory path => t.dropWithin path

namespace FileChange

/-- Whether this is what the change makes. -/
def Leaves : FileChange → FileEntry → Prop
  | write _ contents, entry => entry = .file contents
  | createDirectory _, entry => entry = .directory
  | _, _ => False

variable {removal request : FileChange} {t : FileTree} {k : PathKey} {e : Path × FileEntry}

/-- What takes something away adds nothing. -/
theorem Reverses.get?_of_after (h : removal.Reverses request)
    (he : (t.after removal).entries.get? k = some e) : t.entries.get? k = some e := by
  cases h with
  | @file path =>
    rw [FileTree.after, FileTree.get?_drop] at he
    split at he
    · simp at he
    · exact he
  | directory => exact FileTree.get?_of_get?_dropWithin he

/-- What takes something away leaves alone what is not below it. -/
theorem Reverses.get?_of_not_within (h : removal.Reverses request)
    (hk : ¬ request.path.key <+: k) : (t.after removal).entries.get? k = t.entries.get? k := by
  cases h with
  | file same =>
    rw [FileTree.after, FileTree.get?_drop, if_neg]
    rintro rfl
    exact hk (same ▸ List.prefix_refl _)
  | directory same =>
    rw [FileTree.after, FileTree.get?_dropWithin, if_neg]
    rwa [same]

theorem Reverses.get?_path (h : removal.Reverses request) :
    (t.after removal).entries.get? request.path.key = none := by
  cases h with
  | file same =>
    rw [FileTree.after, FileTree.get?_drop]
    exact if_pos same.symm
  | directory same =>
    rw [FileTree.after, FileTree.get?_dropWithin]
    exact if_pos (same ▸ List.prefix_refl _)

end FileChange

namespace InjectedFiles

variable {files files' before : InjectedFiles} {request : FileChange}
  {outcome : Except FileError Unit} {changes later : List (FileChange × Except FileError Unit)}

/-- What is changed is changed as the request says. -/
theorem changed_eq_ok {tree : FileTree} (h : files.changed request = .ok tree) :
    tree = files.tree.after request := by
  cases request <;> simp only [changed, refused] at h <;> repeat' split at h
  all_goals cases h
  all_goals rfl

theorem apply_cases (files : InjectedFiles) (request : FileChange) :
    (∃ e, files.apply request = (.error e, files)) ∨
      files.apply request = (.ok (), { files with tree := files.tree.after request }) := by
  unfold apply
  split
  · next tree h => exact .inr (by rw [changed_eq_ok h])
  · exact .inl ⟨_, rfl⟩

theorem failingRemovals_apply (files : InjectedFiles) (request : FileChange) :
    (files.apply request).2.failingRemovals = files.failingRemovals := by
  rcases files.apply_cases request with ⟨e, h⟩ | h <;> rw [h]

/-- The files after changes with these outcomes, if these are the outcomes that they have here. -/
def replay (files : InjectedFiles) :
    List (FileChange × Except FileError Unit) → Option InjectedFiles
  | [] => some files
  | (request, outcome) :: rest =>
    match files.apply request, outcome with
    | (.ok (), files'), .ok () => files'.replay rest
    | (.error e, files'), .error e' => if e = e' then files'.replay rest else none
    | _, _ => none

theorem replay_cons : files.replay ((request, outcome) :: later) = some files' ↔
    outcome = (files.apply request).1 ∧ (files.apply request).2.replay later = some files' := by
  cases happly : files.apply request with
  | mk result next =>
    cases result with
    | ok => cases outcome <;> simp [replay, happly]
    | error e =>
      cases outcome with
      | ok => simp [replay, happly]
      | error e' =>
        by_cases he : e = e'
        · simp [replay, happly, he]
        · simp [replay, happly, he, Ne.symm he]

theorem replay_append (h : files.replay (changes ++ later) = some files') :
    ∃ between, files.replay changes = some between ∧ between.replay later = some files' := by
  induction changes generalizing files with
  | nil => exact ⟨files, rfl, h⟩
  | cons change changes ih =>
    obtain ⟨houtcome, hrest⟩ := replay_cons.1 h
    obtain ⟨between, hfirst, hlater⟩ := ih hrest
    exact ⟨between, replay_cons.2 ⟨houtcome, hfirst⟩, hlater⟩

/-- A removal that is not refused takes away what there is. -/
theorem changed_of_reverses {removal : FileChange} {e : Path × FileEntry}
    (hremovable : files.failingRemovals = ∅) (hr : removal.Reverses request)
    (he : files.tree.entries.get? request.path.key = some e) (hleaves : request.Leaves e.2) :
    files.changed removal = .ok (files.tree.after removal) := by
  have hnot : ∀ path, files.failingRemovals.has path = false := fun path => by
    rw [hremovable]
    rfl
  have hentry : ∀ path : Path, path.key = request.path.key → files.tree.entry? path = some e.2 := by
    intro path hpath
    rw [FileTree.entry?, hpath, he]
    rfl
  cases hr with
  | file same => simp [changed, hnot, hentry _ same, show e.2 = _ from hleaves, FileTree.after]
  | directory same => simp [changed, hnot, hentry _ same, show e.2 = _ from hleaves, FileTree.after]

/-- Where something is left after removals, it was there before. -/
theorem get?_of_replay {k : PathKey} {e : Path × FileEntry} (h : files.replay later = some files')
    (hr : ∀ c ∈ later, ∃ request : FileChange, c.1.Reverses request)
    (he : files'.tree.entries.get? k = some e) : files.tree.entries.get? k = some e := by
  induction later generalizing files with
  | nil =>
    obtain rfl := Option.some.inj h
    exact he
  | cons c later ih =>
    obtain ⟨hfirst, hlater⟩ := List.forall_mem_cons.1 hr
    have hnext := ih (replay_cons.1 h).2 hlater
    obtain ⟨request, hreverses⟩ := hfirst
    rcases files.apply_cases c.1 with ⟨e, happly⟩ | happly
    · rwa [happly] at hnext
    · rw [happly] at hnext
      exact hreverses.get?_of_after hnext

/-- **What is asked to be removed is not left**, if removals are not refused. -/
theorem not_left {removal : FileChange} {e : Path × FileEntry}
    (hremovable : files.failingRemovals = ∅) (h : files.replay later = some files')
    (hr : ∀ c ∈ later, ∃ request : FileChange, c.1.Reverses request)
    (hc : (removal, outcome) ∈ later) (hreverses : removal.Reverses request)
    (hleaves : request.Leaves e.2) : files'.tree.entries.get? request.path.key ≠ some e := by
  induction later generalizing files with
  | nil => simp at hc
  | cons c later ih =>
    obtain ⟨houtcome, hrest⟩ := replay_cons.1 h
    have hlater := (List.forall_mem_cons.1 hr).2
    rcases List.mem_cons.1 hc with rfl | hc
    · intro he
      -- It is there to the end, so it is there when it is removed.
      have hnext := get?_of_replay hrest hlater he
      have hchanged := changed_of_reverses hremovable hreverses (get?_of_replay h hr he) hleaves
      rw [apply, hchanged] at hnext
      rw [hreverses.get?_path] at hnext
      simp at hnext
    · exact ih ((files.failingRemovals_apply _).trans hremovable) hrest hlater hc

end InjectedFiles

/-! ## The paths that a run reserves -/

namespace Worker

variable {w : Worker} {path : Path} {k : PathKey} {request : FileChange} {e : Event}

/-- Whether a path with this key is one at which the run keeps something for a container, or lies
below one. -/
def Reserves (w : Worker) (k : PathKey) : Prop := ∃ path, w.IsTemporary path ∧ path.key <+: k

/-- Whether all that the run keeps for containers is kept right in the directory for temporary
files. -/
def KeepsInTemporary (w : Worker) : Prop :=
  ∀ path, w.IsTemporary path →
    ∃ label, path.key = InjectedFiles.temporaryDirectory.key ++ [.name label]

theorem keepsInTemporary_forTask (project : Project) {host : Host} (m : Machine)
    (h : host.temporaryDirectory = InjectedFiles.temporaryDirectory) :
    (forTask project host m).KeepsInTemporary := by
  rintro path ⟨c, -, -, purpose, hpurpose, hpath⟩
  have htemporary : path =
      (RunNames.ofRun m.graph.projectName m.graph.taskName host.suffix).temporary
        InjectedFiles.temporaryDirectory c.name purpose := by
    rw [hpath, ← h]
    rfl
  rw [htemporary]
  exact ⟨_, RunNames.key_temporary _ _ _ _ _ (slash_not_mem_of_mem_purposes hpurpose)⟩

/-- What lies at a reserved path lies below the directory for temporary files. -/
theorem Reserves.below (hw : w.KeepsInTemporary) (h : w.Reserves k) :
    InjectedFiles.temporaryDirectory.key <+: k ∧ k ≠ InjectedFiles.temporaryDirectory.key := by
  obtain ⟨path, hpath, rest, rfl⟩ := h
  obtain ⟨label, hkey⟩ := hw path hpath
  rw [hkey, List.append_assoc]
  exact ⟨List.prefix_append _ _, by simp⟩

/-- On the way to something for a container there is nothing else below the directory for temporary
files. -/
theorem eq_key_of_above (hw : w.KeepsInTemporary) (hpath : w.IsTemporary path)
    (hk : InjectedFiles.temporaryDirectory.key <+: k)
    (hne : k ≠ InjectedFiles.temporaryDirectory.key) (h : k <+: path.key) : k = path.key := by
  obtain ⟨label, hkey⟩ := hw path hpath
  rw [hkey] at h ⊢
  refine (List.prefix_concat_iff.1 h).resolve_right fun h => hne ?_
  exact h.eq_of_length_le hk.length_le

theorem Provides.reserves (h : w.Provides request e) : w.Reserves request.path.key :=
  ⟨_, h.isTemporary, List.prefix_refl _⟩

theorem Provides.adds (h : w.Provides request e) :
    (∃ path contents, request = .write path contents) ∨
      ∃ path, request = .createDirectory path := by
  cases h with
  | passwd | group => exact .inl ⟨_, _, rfl⟩
  | home => exact .inr ⟨_, rfl⟩

/-- What is made for a container is put at its path, with the directories that hold it. -/
theorem Provides.after (h : w.Provides request e) : ∃ entry, request.Leaves entry ∧
    ∀ t : FileTree, t.after request = (t.putHolders request.path).put request.path entry := by
  obtain ⟨path, contents, rfl⟩ | ⟨path, rfl⟩ := h.adds
  · exact ⟨_, rfl, fun _ => rfl⟩
  · exact ⟨_, rfl, fun _ => rfl⟩

/-- The directory of a cache, if it is one and the change has made it. -/
def cacheMade? (w : Worker) : FileChange × Except FileError Unit → Option Path
  | (.createDirectory path, .ok ()) => if path ∈ w.cacheDirectories then some path else none
  | _ => none

/-- The directories of caches that were made, in their order. -/
def cachesMade (w : Worker) (record : List Deed) : List Path :=
  (record.filterMap Deed.change?).filterMap w.cacheMade?

theorem cacheMade?_eq_some {c : FileChange × Except FileError Unit} :
    w.cacheMade? c = some path ↔
      path ∈ w.cacheDirectories ∧ c = (.createDirectory path, .ok ()) := by
  unfold cacheMade?
  split
  · simp only [Option.ite_none_right_eq_some, Option.some.injEq, Prod.mk.injEq,
      FileChange.createDirectory.injEq, and_true]
    constructor
    · rintro ⟨hmem, rfl⟩
      exact ⟨hmem, rfl⟩
    · rintro ⟨hmem, rfl⟩
      exact ⟨hmem, rfl⟩
  · next hnot =>
    simp only [reduceCtorEq, false_iff, not_and]
    rintro hmem rfl
    exact hnot path rfl

/-- What a run changes on the host: it makes what its containers need and the directories of caches,
and takes the first away again. -/
inductive MayChange (w : Worker) : FileChange → Prop
  | provide {request : FileChange} {e : Event} (provides : w.Provides request e) :
      MayChange w request
  | cache {path : Path} (part : path ∈ w.cacheDirectories) : MayChange w (.createDirectory path)
  | remove {removal request : FileChange} {e : Event} (provides : w.Provides request e)
      (reverses : removal.Reverses request) : MayChange w removal

end Worker

namespace InjectedFiles

variable {w : Worker} {before files files' : InjectedFiles}
  {changes later : List (FileChange × Except FileError Unit)} {request : FileChange}
  {outcome : Except FileError Unit}

/-- Whether nothing is in the way of what the run keeps for its containers: nothing is at the paths
it reserves, no cache is to be there, and no removal fails. -/
structure Clear (files : InjectedFiles) (w : Worker) : Prop where
  removable : files.failingRemovals = ∅
  unused : ∀ k, w.Reserves k → files.tree.entries.get? k = none
  apart : ∀ path ∈ w.cacheDirectories, ¬ w.Reserves path.key

/-- What holds of files after the first changes of a run: the directory for temporary files is as it
was before, with the directories of caches that have been made, but for what has been made for
containers. -/
structure Tidy (w : Worker) (before : InjectedFiles)
    (changes : List (FileChange × Except FileError Unit)) (files : InjectedFiles) : Prop where
  removable : files.failingRemovals = ∅
  elsewhere : ∀ k, temporaryDirectory.key <+: k → k ≠ temporaryDirectory.key → ¬ w.Reserves k →
    files.tree.entries.get? k =
      (before.tree.withDirectories (changes.filterMap w.cacheMade?)).entries.get? k
  reserved : ∀ k entry, w.Reserves k → files.tree.entries.get? k = some entry →
    ∃ request e, w.Provides request e ∧ (request, .ok ()) ∈ changes ∧ request.path.key = k ∧
      request.Leaves entry.2

/-- It is enough to look at the keys of what is reserved, of what there is and of the caches. -/
theorem Clear.of_keys {reserved caches : List Path}
    (hreserved : ∀ path, w.IsTemporary path → path ∈ reserved)
    (hcaches : w.cacheDirectories = caches) (removable : files.failingRemovals = ∅)
    (unused : ∀ path ∈ reserved, ∀ e ∈ files.tree.entries.entries, ¬ path.key <+: e.1)
    (apart : ∀ path ∈ reserved, ∀ cache ∈ caches, ¬ path.key <+: cache.key) : files.Clear w where
  removable := removable
  unused := by
    rintro k ⟨path, hpath, hbelow⟩
    refine Option.eq_none_iff_forall_ne_some.2 fun entry hentry => ?_
    exact unused path (hreserved path hpath) _ (SortedMap.mem_entries_iff.2 hentry) hbelow
  apart := by
    rintro cache hcache ⟨path, hpath, hbelow⟩
    exact apart path (hreserved path hpath) cache (hcaches ▸ hcache) hbelow

theorem Clear.tidy (h : before.Clear w) : Tidy w before [] before where
  removable := h.removable
  elsewhere := fun _ _ _ _ => rfl
  reserved := by
    intro k entry hk hentry
    rw [h.unused k hk] at hentry
    simp at hentry

namespace Tidy

/-- A change that makes no directory for a cache. -/
theorem extend {tree : FileTree} (h : Tidy w before changes files)
    (nocache : w.cacheMade? (request, outcome) = none)
    (elsewhere : ∀ k, temporaryDirectory.key <+: k → k ≠ temporaryDirectory.key → ¬ w.Reserves k →
      tree.entries.get? k = files.tree.entries.get? k)
    (reserved : ∀ k entry, w.Reserves k → tree.entries.get? k = some entry →
      files.tree.entries.get? k = some entry ∨
        outcome = .ok () ∧ ∃ e, w.Provides request e ∧ request.path.key = k ∧
          request.Leaves entry.2) :
    Tidy w before (changes ++ [(request, outcome)]) { files with tree } where
  removable := h.removable
  elsewhere := by
    intro k hk hne hnot
    rw [List.filterMap_append, List.filterMap_cons_none nocache, List.filterMap_nil,
      List.append_nil]
    exact (elsewhere k hk hne hnot).trans (h.elsewhere k hk hne hnot)
  reserved := by
    intro k entry hk hentry
    rcases reserved k entry hk hentry with hold | ⟨rfl, e, hp, hkey, hleaves⟩
    · obtain ⟨made, e, hp, hmem, hrest⟩ := h.reserved k entry hk hold
      exact ⟨made, e, hp, List.mem_append_left _ hmem, hrest⟩
    · exact ⟨request, e, hp, by simp, hkey, hleaves⟩

theorem refused (h : Tidy w before changes files) {error : FileError} :
    Tidy w before (changes ++ [(request, .error error)]) files :=
  h.extend (by cases request <;> rfl) (fun _ _ _ _ => rfl) fun _ _ _ => .inl

theorem provided {e : Event} (hw : w.KeepsInTemporary) (hclear : before.Clear w)
    (h : Tidy w before changes files) (hp : w.Provides request e) :
    Tidy w before (changes ++ [(request, .ok ())])
      { files with tree := files.tree.after request } := by
  obtain ⟨entry, hleaves, hafter⟩ := hp.after
  -- Nothing but its own path is reached, as far as the directory for temporary files goes.
  have hframe : ∀ k, temporaryDirectory.key <+: k → k ≠ temporaryDirectory.key →
      k ≠ request.path.key →
        (files.tree.after request).entries.get? k = files.tree.entries.get? k := by
    intro k hk hne hown
    rw [hafter]
    refine FileTree.get?_put_putHolders_of_not_above (fun habove => hown ?_) _ _
    exact Worker.eq_key_of_above hw hp.isTemporary hk hne habove
  refine h.extend ?_ ?_ ?_
  · refine Option.eq_none_iff_forall_ne_some.2 fun path hcache => ?_
    obtain ⟨hmem, heq⟩ := Worker.cacheMade?_eq_some.1 hcache
    obtain ⟨rfl, -⟩ := Prod.mk.inj heq
    exact hclear.apart path hmem hp.reserves
  · intro k hk hne hnot
    refine hframe k hk hne ?_
    rintro rfl
    exact hnot hp.reserves
  · intro k entry' hk hentry
    by_cases hown : k = request.path.key
    · subst hown
      rw [hafter, FileTree.get?_put, if_pos rfl] at hentry
      obtain rfl := Option.some.inj hentry
      exact .inr ⟨rfl, e, hp, rfl, hleaves⟩
    · obtain ⟨hbelow, hne⟩ := hk.below hw
      rw [hframe k hbelow hne hown] at hentry
      exact .inl hentry

theorem cache {path : Path} (hclear : before.Clear w) (h : Tidy w before changes files)
    (hpath : path ∈ w.cacheDirectories) :
    Tidy w before (changes ++ [(.createDirectory path, .ok ())])
      { files with tree := files.tree.addDirectory path } where
  removable := h.removable
  elsewhere := by
    intro k hk hne hnot
    have hcache : [((.createDirectory path, .ok ()) : FileChange × Except FileError Unit)].filterMap
        w.cacheMade? = [path] := by
      rw [List.filterMap_cons_some (Worker.cacheMade?_eq_some.2 ⟨hpath, rfl⟩), List.filterMap_nil]
    rw [List.filterMap_append, hcache, FileTree.withDirectories_append]
    exact FileTree.get?_addDirectory_congr (h.elsewhere k hk hne hnot) path
  reserved := by
    intro k entry hk hentry
    have habove : ¬ k <+: path.key := by
      intro habove
      obtain ⟨temporary, htemporary, hbelow⟩ := hk
      exact hclear.apart path hpath ⟨temporary, htemporary, hbelow.trans habove⟩
    rw [FileTree.addDirectory, FileTree.get?_put_putHolders_of_not_above habove] at hentry
    obtain ⟨made, e, hp, hmem, hrest⟩ := h.reserved k entry hk hentry
    exact ⟨made, e, hp, List.mem_append_left _ hmem, hrest⟩

theorem removed {removal : FileChange} {e : Event} (h : Tidy w before changes files)
    (hp : w.Provides request e) (hr : removal.Reverses request) :
    Tidy w before (changes ++ [(removal, .ok ())])
      { files with tree := files.tree.after removal } := by
  refine h.extend (by cases hr <;> rfl) ?_ ?_
  · intro k _ _ hnot
    refine hr.get?_of_not_within fun hwithin => hnot ?_
    exact ⟨_, hp.isTemporary, hwithin⟩
  · intro k entry _ hentry
    exact .inl (hr.get?_of_after hentry)

/-- One change that a run may make. -/
theorem apply (hw : w.KeepsInTemporary) (hclear : before.Clear w) (h : Tidy w before changes files)
    (hmay : w.MayChange request) :
    Tidy w before (changes ++ [(request, (files.apply request).1)]) (files.apply request).2 := by
  rcases files.apply_cases request with ⟨error, happly⟩ | happly
  · rw [happly]
    exact h.refused
  · rw [happly]
    cases hmay with
    | provide provides => exact h.provided hw hclear provides
    | cache part => exact h.cache hclear part
    | remove provides reverses => exact h.removed provides reverses

/-- All changes of a run. -/
theorem replay (hw : w.KeepsInTemporary) (hclear : before.Clear w) (h : Tidy w before changes files)
    (hmay : ∀ c ∈ later, w.MayChange c.1) (hr : files.replay later = some files') :
    Tidy w before (changes ++ later) files' := by
  induction later generalizing changes files with
  | nil =>
    obtain rfl := Option.some.inj hr
    rwa [List.append_nil]
  | cons c later ih =>
    obtain ⟨houtcome, hrest⟩ := replay_cons.1 hr
    obtain ⟨hfirst, hlater⟩ := List.forall_mem_cons.1 hmay
    have hnext := ih (h.apply hw hclear hfirst) hlater hrest
    rw [← houtcome, List.append_assoc] at hnext
    exact hnext

end Tidy

end InjectedFiles

namespace Scene

open InjectedFiles (temporaryDirectory)

variable {w : Worker} {m : Machine} {s u : Scene} {result : TaskResult} {plan : TeardownPlan}
  {files files' : InjectedFiles}

/-- Nothing is left at a path that the run reserves. -/
theorem CleanedUp.reserved_empty (h : CleanedUp w m s u) (hw : w.KeepsInTemporary)
    (hclear : files.Clear w) (hr : files.replay (u.record.filterMap Deed.change?) = some files') :
    InjectedFiles.Tidy w files (u.record.filterMap Deed.change?) files' ∧
      ∀ k, w.Reserves k → files'.tree.entries.get? k = none := by
  obtain ⟨record, hrecord, hremovals, hplanned⟩ := h.exists_removals
  rw [hrecord, List.filterMap_append] at hr ⊢
  have hmade : ∀ c ∈ s.record.filterMap Deed.change?, (∃ e, w.Provides c.1 e ∧
      (c.2 = .ok () → e ∈ s.log)) ∨ ∃ path ∈ w.cacheDirectories, c.1 = .createDirectory path :=
    fun c hc => h.reachable.changed h.graph h.wellFormed h.idle (mem_changes.1 hc)
  have hreverses : ∀ c ∈ record.filterMap Deed.change?,
      ∃ request e, w.Provides request e ∧ c.1.Reverses request :=
    fun c hc => hremovals c.1 c.2 (mem_changes.1 hc)
  have hmay : ∀ c ∈ s.record.filterMap Deed.change? ++ record.filterMap Deed.change?,
      w.MayChange c.1 := by
    intro c hc
    rcases List.mem_append.1 hc with hc | hc
    · obtain ⟨e, hp, -⟩ | ⟨path, hpath, heq⟩ := hmade c hc
      · exact .provide hp
      · exact heq ▸ .cache hpath
    · obtain ⟨request, e, hp, hrev⟩ := hreverses c hc
      exact .remove hp hrev
  have htidy := hclear.tidy.replay hw hclear hmay hr
  rw [List.nil_append] at htidy
  refine ⟨htidy, fun k hk => ?_⟩
  refine Option.eq_none_iff_forall_ne_some.2 fun entry hentry => ?_
  obtain ⟨request, e, hp, hmem, rfl, hleaves⟩ := htidy.reserved k entry hk hentry
  -- What was made was told of, so that cleanup has asked to take it away.
  have htold : ∃ e, w.Provides request e ∧ e ∈ s.log := by
    rcases List.mem_append.1 hmem with hmem | hmem
    · obtain ⟨e', hp', htold⟩ | ⟨path, hpath, heq⟩ := hmade _ hmem
      · exact ⟨e', hp', htold rfl⟩
      · obtain rfl : request = .createDirectory path := heq
        exact absurd hp.reserves (hclear.apart path hpath)
    · obtain ⟨other, -, -, hrev⟩ := hreverses _ hmem
      cases hrev <;> cases hp
  obtain ⟨e', hp', htold⟩ := htold
  obtain ⟨removal, outcome, hremoval, hrev⟩ := hplanned request e' hp' htold
  obtain ⟨between, hfirst, hlast⟩ := InjectedFiles.replay_append hr
  have hbetween := hclear.tidy.replay hw hclear
    (fun c hc => hmay c (List.mem_append_left _ hc)) hfirst
  refine InjectedFiles.not_left hbetween.removable hlast ?_
    (mem_changes.2 hremoval) hrev hleaves hentry
  intro c hc
  obtain ⟨made, -, -, hmadeBy⟩ := hreverses c hc
  exact ⟨made, hmadeBy⟩

/-- **A run that is cleaned up leaves nothing temporary behind.** Whatever the engine replies,
whichever paths refuse to be written, and wherever the run is interrupted: if cleanup is carried
out, removals are not refused, and nobody else uses the paths that the run reserves, then below the
directory for temporary files there is in the end just what there was in the beginning, with the
directories of caches that have been made; and these are all of the task's caches, once they have
been made ready. -/
theorem temporary_gone {project : Project} {task : String} {host : Host}
    (hresolve : Graph.resolve project task = .ok m.graph)
    (htemporary : host.temporaryDirectory = temporaryDirectory)
    (hclear : files.Clear (.forTask project host m))
    (hreach : Reachable (.forTask project host m) m s) (hends : Ends m s result)
    (hdecision : m.cleanup s.log result = .run plan)
    (hcleans : Cleans (.forTask project host m) plan.groups s u)
    (hfiles : files.replay (u.record.filterMap Deed.change?) = some files') :
    files'.tree.below temporaryDirectory =
        (files.tree.withDirectories ((Worker.forTask project host m).cachesMade u.record)).below
          temporaryDirectory ∧
      (.cachesInitialised ∈ s.log → ∀ path ∈ (Worker.forTask project host m).cacheDirectories,
        path ∈ (Worker.forTask project host m).cachesMade u.record) := by
  obtain rfl := Machine.plan_eq hdecision
  have h : CleanedUp (.forTask project host m) m s u :=
    ⟨rfl, Graph.wellFormed_of_resolve hresolve, hreach, hends.1, hcleans⟩
  have hw := Worker.keepsInTemporary_forTask project m htemporary
  generalize Worker.forTask project host m = w at *
  obtain ⟨htidy, hempty⟩ := h.reserved_empty hw hclear hfiles
  constructor
  · refine FileTree.below_eq_below fun k hk hne => ?_
    by_cases hreserved : w.Reserves k
    · rw [hempty k hreserved, FileTree.get?_withDirectories_of_not_above, hclear.unused k hreserved]
      intro path hpath habove
      obtain ⟨c, -, hc⟩ := List.mem_filterMap.1 hpath
      obtain ⟨hmem, -⟩ := Worker.cacheMade?_eq_some.1 hc
      obtain ⟨temporary, htemporary, hbelow⟩ := hreserved
      exact hclear.apart path hmem ⟨temporary, htemporary, hbelow.trans habove⟩
    · exact htidy.elsewhere k hk hne hreserved
  · intro hinitialised path hpath
    have hmade := hreach.directories_of_initialised h.graph h.wellFormed h.idle hinitialised path
      hpath
    obtain ⟨record, hrecord, -⟩ := h.exists_removals
    rw [Worker.cachesMade, hrecord, List.filterMap_append, List.filterMap_append]
    refine List.mem_append_left _ (List.mem_filterMap.2 ⟨_, mem_changes.2 hmade, ?_⟩)
    exact Worker.cacheMade?_eq_some.2 ⟨hpath, rfl⟩

end Scene

/-! ## A run to look at -/

namespace Obliging

/-- Surroundings with an engine that does whatever it is asked for, and with files held in memory.
They remember the changes. -/
def withFiles : Surroundings (InjectedFiles × List (FileChange × Except FileError Unit)) where
  ask := fun _ call world => (([], .reply (.ok (answer [] call))), world)
  change := fun request world =>
    ((world.1.apply request).1,
      (world.1.apply request).2, world.2 ++ [(request, (world.1.apply request).1)])
  isCancelled := fun _ => false

theorem answers_withFiles : withFiles.Answers := fun _ _ _ => .inl ⟨_, rfl⟩

theorem remembers_withFiles : withFiles.Remembers Deed.change? Prod.snd where
  unposted := fun _ => rfl
  unasked := fun _ => rfl
  cancelled := fun _ => rfl
  replied := fun _ => (List.append_nil _).symm
  waits := nofun
  changed := fun _ _ => rfl
  idle := fun _ => rfl
  observed := fun _ _ => rfl

end Obliging

/-! A shed with the same work as in the workshop, whose tools are kept in a directory. Somebody has
left a note there. -/

namespace Shed

/-- The project, in a directory for temporary files. -/
def project : Project where
  settings := { Workshop.project.settings with cacheKind := .directory }
  baseDirectory := ⟨"/tmp/shed"⟩
  valid := by decide

/-- What the work needs. -/
def graph : Graph :=
  { Workshop.graph with
    nodes := Graph.nodesOf project (.ofList [("lamp", ∅), ("bench", .ofList ["lamp"])]) }

/-- The work. -/
def machine : Machine := ⟨graph, { task := "work" }⟩

theorem resolve_project : Graph.resolve project "work" = .ok machine.graph := by decide +kernel

/-- Who does the work. -/
def worker : Worker := .forTask project Workshop.host machine

/-- Where the tools are. -/
def tools : Path := ⟨"/tmp/shed/.dockhand/caches/tools"⟩

/-- The first file for the bench. -/
def passwd : Path := ⟨"/tmp/dockhand-workshop-bench-1-passwd"⟩

/-- The second file for the bench. -/
def group : Path := ⟨"/tmp/dockhand-workshop-bench-1-group"⟩

/-- What there is in the beginning. The second file for the bench cannot be written. -/
def files : InjectedFiles :=
  (InjectedFiles.fresh.addFile ⟨"/tmp/shed/note"⟩ "Oil the vice.").failWrite group

theorem mem_of_isTemporary {path : Path} (h : worker.IsTemporary path) :
    path ∈ [passwd, group, ⟨"/tmp/dockhand-workshop-bench-1-home"⟩] := by
  obtain ⟨c, hc, hrun, purpose, hpurpose, hpath⟩ := h
  have hname : ∀ c ∈ worker.graph.containers, c.runsAsCurrentUser = true → c.name = "bench" := by
    decide +kernel
  rw [hpath, Worker.temporaryPath, hname c hc hrun]
  have hnames : ∀ purpose ∈ ["passwd", "group", "home"],
      worker.names.temporary worker.temporaryDirectory "bench" purpose ∈
        [passwd, group, ⟨"/tmp/dockhand-workshop-bench-1-home"⟩] := by
    decide +kernel
  exact hnames purpose hpurpose

theorem cacheDirectories_eq : worker.cacheDirectories = [tools] := by decide +kernel

theorem clear_files : files.Clear worker :=
  .of_keys (fun _ => mem_of_isTemporary) cacheDirectories_eq rfl (by decide +kernel)
    (by decide +kernel)

/-- The first file for the bench has been written, but only the note and the tools are left. -/
theorem only_note_and_tools_left : ∃ (record : List Deed) (files' : InjectedFiles),
    files.replay (record.filterMap Deed.change?) = some files' ∧
      ((record.filterMap Deed.change?).any fun c => c.1.path = passwd && c.2.isOk) ∧
        (files'.tree.below InjectedFiles.temporaryDirectory).paths =
          [⟨"/tmp/shed"⟩, ⟨"/tmp/shed/.dockhand"⟩, ⟨"/tmp/shed/.dockhand/caches"⟩, tools,
            ⟨"/tmp/shed/note"⟩] := by
  have hcourse : (Worker.runTask Obliging.withFiles project Workshop.host machine
      (files, [])).endsWith (fun _ world => (files.replay world.2).isSome ∧
        (world.2.any fun c => c.1.path = passwd && c.2.isOk) ∧
        world.2.filterMap worker.cacheMade? = [tools]) = true := by
    decide +kernel
  obtain ⟨r, world, hrun, hseen⟩ := Course.exists_ended hcourse
  obtain ⟨hreplay, hwritten, hcaches⟩ := of_decide_eq_true hseen
  obtain ⟨s, u, result, manual, hreach, hends, hconcludes, -, hrecord⟩ :=
    Scene.exists_scenes_of_runTask Obliging.answers_withFiles Obliging.remembers_withFiles rfl hrun
  obtain ⟨files', hfiles⟩ := Option.isSome_iff_exists.1 hreplay
  rw [← hrecord] at hfiles hwritten hcaches
  refine ⟨u.record, files', hfiles, hwritten, ?_⟩
  cases hconcludes with
  | kept decision =>
    cases result <;> simp [Machine.cleanup, Machine.policy, machine] at decision
  | cleaned decision cleanup =>
    obtain ⟨hbelow, -⟩ := Scene.temporary_gone resolve_project rfl clear_files hreach hends decision
      cleanup hfiles
    have hmade : (Worker.forTask project Workshop.host machine).cachesMade u.record = [tools] :=
      hcaches
    rw [hbelow, hmade]
    decide +kernel

end Shed

end Stevedore
