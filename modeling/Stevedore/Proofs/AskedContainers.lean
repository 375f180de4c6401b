import Stevedore.Proofs.CreateArguments
import Stevedore.Proofs.HostPaths
import Stevedore.Proofs.SharedCaches

/-!
What tells the containers apart that are asked for.

The client is started with one list of arguments for each container. What is mounted is written in
one argument, with colons between what it is, where it is mounted, and how, and a variable with an
equals sign between its name and its value. A project file is not checked for colons in paths, nor
for equals signs in the names of variables. So two different containers may be asked for with the
same arguments, but only if there is such a colon or equals sign
(`createArguments_eq_iff`).

Whether a directory is mounted or a volume is not written at all. Still, it can be seen: whatever a
worker mounts from the host has a slash in its path, and no volume has one in its name
(`Project.AsksFor.isTold`).
-/

namespace Stevedore

/-- Whether a container like this is asked for when a task of the project is run on the host, by
whatever step, however far it comes. -/
def Project.AsksFor (project : Project) (host : Host) (request : CreateRequest) : Prop :=
  ∃ (task : String) (m : Machine) (step : Step) (history : List Deed) (errand : Errand Unit)
    (d : Deed), Graph.resolve project task = .ok m.graph ∧
      (Errand.free ((Worker.forTask project host m).perform step)).Goes history errand ∧
        d ∈ history ∧ d.creation? = some request

section

variable {project : Project} {host : Host} {m : Machine} {task container : String}
  {settings : ContainerSettings} {request : CreateRequest}

/-! ## Paths of the host -/

/-- What is below a directory has a slash in its path. -/
theorem Path.slash_mem_join {p : Path} (hp : p.text ≠ "") (q : Path) :
    '/' ∈ (p.join q).text.toList := by
  unfold join
  split
  · next hq => exact List.mem_of_head? (of_decide_eq_true hq)
  · split
    · next hends =>
      have hlast := (or_iff_right hp).1 (by simpa using hends)
      rw [String.toList_append]
      exact List.mem_append_left _ (List.mem_of_getLast? hlast)
    · simp

theorem Path.text_join_ne {p : Path} (hp : p.text ≠ "") (q : Path) : (p.join q).text ≠ "" := by
  intro h
  have hslash := slash_mem_join hp q
  rw [h] at hslash
  cases hslash

/-! ## What a worker mounts -/

/-- The volumes that are configured for a container. -/
theorem Worker.isTold_mount {w : Worker} (hcaches : w.caches = project.cacheStores)
    (hbase : project.baseDirectory.text ≠ "")
    (hcontainer : project.container? container = some settings)
    {volume : VolumeSettings} (hvolume : volume ∈ settings.volumes) :
    (w.mount (volume.mount project.baseDirectory)).source.IsTold := by
  cases volume with
  | host source target options => exact Path.slash_mem_join hbase source
  | cache name target =>
    have hmounts : project.MountsCache name := ⟨container, settings, target, hcontainer, hvolume⟩
    unfold VolumeSettings.mount Worker.mount
    dsimp only
    rw [hcaches]
    cases hstore : project.cacheStores.store name with
    | volume volume =>
      have hname := Project.isVolumeName_store hmounts hstore
      exact (isPlainName_of_isVolumeName hname).not_slash
    | directory path =>
      show '/' ∈ path.text.toList
      rw [Project.directory_eq hstore]
      exact Path.slash_mem_join (Path.text_join_ne (Path.text_join_ne hbase _) _) _

/-- What a container has that runs as the current user. -/
theorem Worker.isTold_ownMounts {w : Worker} (htemporary : w.temporaryDirectory.text ≠ "")
    (c : Container) : ∀ mount ∈ w.ownMounts c, mount.source.IsTold := by
  have hpaths : ∀ purpose, (MountSource.hostPath
      (w.names.temporary w.temporaryDirectory c.name purpose)).IsTold :=
    fun purpose => Path.slash_mem_join htemporary _
  unfold ownMounts
  split
  · simp
  · simp [hpaths]

/-- The caches of a task are mounted in the project. -/
theorem Cache.mountsCache_of_resolve {g : Graph} {stores : CacheStores} {caches : NameMap Cache}
    {name : String} {entry : Cache} (hresolve : Graph.resolve project task = .ok g)
    (h : Cache.resolve g stores = .ok caches) (hentry : caches.get? name = some entry) :
    project.MountsCache name := by
  obtain ⟨c, hc, target, hmount⟩ := (mounted_iff_of_resolve h).1 ⟨entry, hentry⟩
  have hpart := (Graph.mem_containers (Graph.wellFormed_of_resolve hresolve)).1 hc
  obtain ⟨settings, hsettings, hmade⟩ := Graph.container?_of_resolve hresolve hpart
  rw [hmade, Container.ofSettings] at hmount
  obtain ⟨volume, hvolume, heq⟩ := List.mem_map.1 hmount
  cases volume with
  | host => cases heq
  | cache other place =>
    cases heq
    exact ⟨c.name, settings, target, hsettings, hvolume⟩

/-- The volumes that are handed over. -/
theorem Worker.isTold_handOverMounts {caches : NameMap Cache}
    (hresolve : Graph.resolve project task = .ok m.graph)
    (h : Cache.resolve m.graph project.cacheStores = .ok caches) :
    ∀ mount ∈ handOverMounts (caches.values.filterMap volumeToHandOver?), mount.source.IsTold := by
  intro mount hmount
  obtain ⟨⟨volume, index⟩, hvolume, rfl⟩ := List.mem_map.1 hmount
  obtain ⟨entry, hentry, hhand⟩ := List.mem_filterMap.1 (List.fst_mem_of_mem_zipIdx hvolume)
  obtain ⟨⟨name, _⟩, hbound, rfl⟩ := List.mem_map.1 hentry
  have hget := SortedMap.mem_entries_iff.1 hbound
  have hstore : project.cacheStores.store name = .volume volume := by
    rw [← (Cache.isSharedBy_of_resolve h hget).store]
    unfold volumeToHandOver? at hhand
    split at hhand
    · next hkept =>
      split at hhand
      · rw [hkept, Option.some.inj hhand]
      · cases hhand
    · cases hhand
  have hmounts := Cache.mountsCache_of_resolve hresolve h hget
  exact (isPlainName_of_isVolumeName (Project.isVolumeName_store hmounts hstore)).not_slash

/-- **Whatever is mounted can be told**: a directory of the host from a volume, by the slash. -/
theorem Project.AsksFor.isTold (h : project.AsksFor host request)
    (hbase : project.baseDirectory.text ≠ "") (htemporary : host.temporaryDirectory.text ≠ "") :
    ∀ mount ∈ request.mounts, mount.source.IsTold := by
  obtain ⟨task, m, step, history, errand, d, hresolve, hgoes, hd, hrequest⟩ := h
  let mayAsk : EngineCall → Prop := fun call => ∀ request, call.creation? = some request →
    ∀ mount ∈ request.mounts, mount.source.IsTold
  have hwithin : ((Worker.forTask project host m).perform step).Within (fun _ => True) mayAsk := by
    refine Worker.within_perform_of (Graph.wellFormed_of_resolve hresolve) ?_ ?_ ?_ step
    · rintro c k image network history _ hk hasked request ⟨⟩
      obtain ⟨settings, hsettings, rfl⟩ := Graph.container?_of_resolve hresolve hk
      rw [Worker.mounts_of_through hasked, Container.ofSettings, List.forall_mem_append]
      refine ⟨?_, Worker.isTold_ownMounts htemporary _⟩
      simp only [List.forall_mem_map]
      exact fun volume hvolume => Worker.isTold_mount rfl hbase hsettings hvolume
    · rintro caches image hcaches _ ⟨⟩
      exact Worker.isTold_handOverMounts hresolve hcaches
    · intro call hnone request hsome
      rw [hnone] at hsome
      cases hsome
  obtain ⟨call, hmay, hcreation⟩ := (hgoes.within hwithin d hd).exists_call hrequest
  exact hmay request hcreation

/-! ## What tells containers apart -/

/-- **Containers that are asked for with the same arguments resemble each other**, whatever projects
they belong to, and if no image is spelled like an option. They are the same if it is seen where the
parts of their mounts and variables end. -/
theorem createArguments_eq_iff {p q : Project} {host' : Host} {r s : CreateRequest}
    (hr : p.AsksFor host r) (hs : q.AsksFor host' s)
    (hbase : p.baseDirectory.text ≠ "") (hbase' : q.baseDirectory.text ≠ "")
    (htemporary : host.temporaryDirectory.text ≠ "")
    (htemporary' : host'.temporaryDirectory.text ≠ "")
    (himage : r.image.id.toList.head? ≠ some '-') (himage' : s.image.id.toList.head? ≠ some '-') :
    (Docker.createArguments r = Docker.createArguments s ↔ r.Resembles s) ∧
      (r.IsLegible → s.IsLegible →
        (Docker.createArguments r = Docker.createArguments s ↔ r = s)) := by
  have hresembles := CreateRequest.createArguments_eq_iff_resembles himage himage'
  refine ⟨hresembles, fun hlegible hlegible' => ⟨fun h => ?_, congrArg _⟩⟩
  exact (hresembles.1 h).eq hlegible hlegible' (hr.isTold hbase htemporary)
    (hs.isTold hbase' htemporary')

end

/-! ## A gallery with frames -/

namespace Gallery

/-- What a project file says that mounts the frames like this. -/
def settings (target : String) (options : Option String) : ProjectSettings where
  projectName := "gallery"
  containers := .ofList [
    ("wall", { image := some "plaster", volumes := [.host ⟨"/frames"⟩ target options] })]
  tasks := .ofList [("hang", { run := some { container := "wall" } })]

/-- The frames may be looked at only. -/
def readOnly : Project where
  settings := settings "/frames" (some "ro")
  baseDirectory := ⟨"/gallery"⟩
  valid := by decide

/-- The frames may be changed. -/
def writable : Project where
  settings := settings "/frames" none
  baseDirectory := ⟨"/gallery"⟩
  valid := by decide

/-- The frames may be changed, and are found in a directory of another name. -/
def renamed : Project where
  settings := settings "/frames:ro" none
  baseDirectory := ⟨"/gallery"⟩
  valid := by decide

/-- The work. -/
def machine (project : Project) : Machine where
  graph := {
    projectName := "gallery"
    taskName := "hang"
    run := { container := "wall" }
    nodes := Graph.nodesOf project (.ofList [("wall", ∅)]) }
  options := { task := "hang" }

/-- The step that sets the wall up. -/
def setUp : Step := .createContainer "wall" ⟨"plaster"⟩ ⟨"network"⟩

/-- The wall with the frames. -/
def wall (target : String) (options : Option String) : CreateRequest where
  name := "gallery-wall-1"
  image := ⟨"plaster"⟩
  network := ⟨"network"⟩
  knownAs := some "wall"
  command := []
  environment := ∅
  workingDirectory := none
  mounts := [⟨.hostPath ⟨"/frames"⟩, target, options⟩]
  user := none

theorem asksFor {project : Project} {request : CreateRequest}
    (hresolve : Graph.resolve project "hang" = .ok (machine project).graph)
    (h : request ∈ (Worker.forTask project Workshop.host (machine project)).madeFor setUp) :
    project.AsksFor Workshop.host request := by
  obtain ⟨history, d, hthrough, hd, hcreation⟩ := Worker.exists_history_of_madeFor h
  exact ⟨"hang", machine project, setUp, history, _, d, hresolve, hthrough, hd, hcreation⟩

theorem asksFor_readOnly : readOnly.AsksFor Workshop.host (wall "/frames" (some "ro")) :=
  asksFor (by decide +kernel) (by decide +kernel)

/-- Frames that may be looked at only are told from frames that may be changed. -/
theorem frames_told_apart : readOnly.AsksFor Workshop.host (wall "/frames" (some "ro")) ∧
    writable.AsksFor Workshop.host (wall "/frames" none) ∧
    Docker.createArguments (wall "/frames" (some "ro")) ≠
      Docker.createArguments (wall "/frames" none) := by
  have hwritable : writable.AsksFor Workshop.host (wall "/frames" none) :=
    asksFor (by decide +kernel) (by decide +kernel)
  have hcolon : ':' ∉ "/frames".toList := by decide
  have hlegible : ∀ options, (wall "/frames" options).IsLegible := fun options =>
    ⟨nofun, List.forall_mem_singleton.2 ⟨hcolon, hcolon⟩⟩
  refine ⟨asksFor_readOnly, hwritable, ?_⟩
  rw [Ne, (createArguments_eq_iff asksFor_readOnly hwritable (by decide) (by decide) (by decide)
    (by decide) (by decide) (by decide)).2 (hlegible _) (hlegible _)]
  decide

/-- Frames in a directory of another name look like frames that may be looked at only. -/
theorem frames_look_alike : readOnly.AsksFor Workshop.host (wall "/frames" (some "ro")) ∧
    renamed.AsksFor Workshop.host (wall "/frames:ro" none) ∧
    Docker.createArguments (wall "/frames" (some "ro")) =
      Docker.createArguments (wall "/frames:ro" none) ∧
    (wall "/frames" (some "ro")).image.id.toList.head? ≠ some '-' ∧
    (wall "/frames:ro" none).image.id.toList.head? ≠ some '-' ∧
    (wall "/frames" (some "ro")).mounts ≠ (wall "/frames:ro" none).mounts := by
  have hrenamed : renamed.AsksFor Workshop.host (wall "/frames:ro" none) :=
    asksFor (by decide +kernel) (by decide +kernel)
  exact ⟨asksFor_readOnly, hrenamed, by decide, by decide, by decide, by decide⟩

end Gallery

end Stevedore
