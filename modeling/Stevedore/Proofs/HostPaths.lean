import Stevedore.Invocation
import Stevedore.Proofs.Account
import Stevedore.Proofs.Contract
import Stevedore.Proofs.LegalNames

/-!
Where the directories lie that a run mounts into its containers.

A volume of a container may be a directory of the host. An engine tells its path from the name of a
volume by the slash at its front, and takes no other paths. The path starts from the directory of
the project, and that is either the one that holds the project file, spelled as the file was, or the
working directory, for a file named without any. So the path is one that the engine takes if the
file was named from the root or without any directory, or if the volume was; but not if the file was
named by its way from the working directory (`isAbsolute_hostPath_iff`).

That this is what the engine is asked for is seen in two steps. A request to create a container
mounts the volumes of that container, and nothing but volumes of the engine is mounted to hand over
caches (`Worker.Creates`). And the containers of a task are those of the project, with their paths
starting from its directory.
-/

namespace Stevedore

/-! ## The directory of a project -/

/-- The directory of a project starts at the root, unless its file was named by the way to it from
the working directory. -/
theorem isAbsolute_projectDirectory_iff {working file : Path} (h : working.isAbsolute = true) :
    (projectDirectory working file).isAbsolute = true ↔
      file.isAbsolute = true ∨ holdingDirectory? file = none := by
  unfold projectDirectory
  cases hholding : holdingDirectory? file with
  | none => simp [h]
  | some holder =>
    obtain ⟨hparent, hne⟩ := Option.filter_eq_some_iff.1 hholding
    rw [Option.getD_some, Path.isAbsolute_parent? hparent (of_decide_eq_true hne)]
    simp

theorem baseDirectory_of_project {σ : Type} {place : Workplace σ} {file : Path} {world : σ}
    {project : Project} (h : Invocation.project place file world = .ok project) :
    project.baseDirectory = projectDirectory place.workingDirectory file := by
  obtain ⟨text, -, h⟩ := Graph.bind_eq_ok h
  obtain ⟨settings, -, h⟩ := Graph.bind_eq_ok h
  obtain ⟨bare, -, h⟩ := Graph.bind_eq_ok h
  rw [← Except.ok.inj h]
  rfl

/-- The project is read from what its file says, if there is nothing wrong with it. -/
theorem project_eq_ok {σ : Type} {place : Workplace σ} {file : Path} {world : σ} {text : String}
    {settings : ProjectSettings} (hread : place.read file world = .ok text)
    (hsettings : Document.settings? text = some settings) (hvalid : settings.problems = []) :
    Invocation.project place file world =
      .ok ⟨settings, projectDirectory place.workingDirectory file, hvalid⟩ := by
  have hbare : Project.ofSettings settings = .ok ⟨settings, ⟨"."⟩, hvalid⟩ := by
    unfold Project.ofSettings
    split
    · rfl
    · next h => rw [hvalid] at h; nomatch h
  unfold Invocation.project
  rw [hread]
  show Except.bind ((Document.settings? text).elim (.error InvocationProblem.malformed) .ok) _ = _
  rw [hsettings]
  show Except.bind ((Project.ofSettings settings).mapError InvocationProblem.config) _ = _
  rw [hbare]
  rfl

/-! ## The directory of a volume -/

/-- The directory of the host that a volume is, if it is one. -/
def Project.hostPath? (project : Project) : VolumeSettings → Option Path
  | .host source _ _ => some (project.baseDirectory.join source)
  | .cache name _ =>
    match project.cacheStores.store name with
    | .directory path => some path
    | .volume _ => none

/-- Whether the volume is a directory that was named from the root. -/
def VolumeSettings.FromRoot : VolumeSettings → Prop
  | host source _ _ => source.isAbsolute = true
  | cache .. => False

/-- The directory of the host that is mounted, if it is one. -/
def Mount.hostPath? (mount : Mount) : Option Path :=
  match mount.source with
  | .hostPath path => some path
  | .volume _ => none

section

variable {project : Project} {container : String} {settings : ContainerSettings} {path : Path}
  {volume : VolumeSettings}

theorem Project.hostPath?_cache {name target : String} :
    project.hostPath? (.cache name target) = some path ↔
      project.cacheStores.store name = .directory path := by
  unfold hostPath?
  dsimp only
  split <;> simp_all

/-- The directory for caches starts where the directory of the project starts. -/
theorem isAbsolute_cachesDirectory (project : Project) :
    project.cachesDirectory.isAbsolute = project.baseDirectory.isAbsolute := by
  have hdockhand : (⟨".dockhand"⟩ : Path).isAbsolute = false := by decide
  have hcaches : (⟨"caches"⟩ : Path).isAbsolute = false := by decide
  simp [Project.cachesDirectory, Path.isAbsolute_join, hdockhand, hcaches]

theorem isAbsolute_hostPath (hcontainer : project.container? container = some settings)
    (hmem : volume ∈ settings.volumes) (h : project.hostPath? volume = some path) :
    path.isAbsolute = true ↔ project.baseDirectory.isAbsolute = true ∨ volume.FromRoot := by
  cases volume with
  | host source target options =>
    rw [← Option.some.inj h, Path.isAbsolute_join, Bool.or_eq_true]
    rfl
  | cache name target =>
    have hname : IsPlainName name := isPlainName_of_isVolumeName
      (Project.MountsCache.isVolumeName ⟨container, settings, target, hcontainer, hmem⟩)
    rw [Project.directory_eq (Project.hostPath?_cache.1 h), Path.isAbsolute_join,
      hname.isAbsolute_eq, Bool.or_false, isAbsolute_cachesDirectory]
    simp [VolumeSettings.FromRoot]

/-! ## What is asked for -/

/-- The container that is asked for. -/
def EngineCall.creation? : EngineCall → Option CreateRequest
  | createContainer request => some request
  | _ => none

/-- The container that is asked for, or that there is a reply about. -/
def Deed.creation? : Deed → Option CreateRequest
  | asked call | answered call _ => call.creation?
  | _ => none

namespace Worker

open Program

variable {w : Worker} {request : CreateRequest} {history : List Deed}

/-- What is mounted for a container that runs as the current user, beside its volumes. -/
def ownMounts (w : Worker) (c : Container) : List Mount :=
  let temporary := w.names.temporary w.temporaryDirectory c.name
  match c.userHome with
  | none => []
  | some home => [
      ⟨.hostPath (temporary "passwd"), "/etc/passwd", some "ro"⟩,
      ⟨.hostPath (temporary "group"), "/etc/group", some "ro"⟩,
      ⟨.hostPath (temporary "home"), home, none⟩]

/-- Whether the worker may ask for such a container: one of the task, with its volumes and what it
has of its own, or one that hands over caches. -/
inductive Creates (w : Worker) : CreateRequest → Prop
  | container {c : String} {k : Container} {request : CreateRequest}
      (part : w.graph.container? c = some k) (known : request.knownAs = some k.name)
      (mounts : request.mounts = k.mounts.map w.mount ++ w.ownMounts k) : Creates w request
  | helper (image : Image) (volumes : List String) : Creates w (w.handOverRequest image volumes)

/-- Whether the worker may ask for this, as far as the creation of containers goes. -/
def MayCreate (w : Worker) : EngineCall → Prop
  | .createContainer request => w.Creates request
  | _ => True

theorem ownMounts_of_through {c : Container} {home : String} {mounts : List Mount}
    (hhome : c.userHome = some home)
    (h : (w.userMounts c.name home).run.Through history (.ok mounts)) :
    mounts = w.ownMounts c := by
  obtain ⟨_, _, _, -, -, h⟩ := Attempt.through_bind_ok h
  obtain ⟨_, _, _, -, -, h⟩ := Attempt.through_bind_ok h
  obtain ⟨_, _, _, -, -, h⟩ := Attempt.through_bind_ok h
  obtain ⟨_, _, _, -, -, h⟩ := Attempt.through_bind_ok h
  rw [← Except.ok.inj (through_done.1 h).2, ownMounts, hhome]

theorem mounts_of_through {k : Container} {image : Image} {network : Network}
    (h : (w.creationRequest k image network).run.Through history (.ok request)) :
    request.mounts = k.mounts.map w.mount ++ w.ownMounts k := by
  unfold creationRequest at h
  dsimp only at h
  split at h
  · next hhome =>
    obtain ⟨extra, _, _, -, hextra, h⟩ := Attempt.through_bind_ok h
    obtain ⟨command, _, _, -, -, h⟩ := Attempt.through_bind_ok h
    rw [← Except.ok.inj (through_done.1 h).2, ← Except.ok.inj (through_done.1 hextra).2,
      ownMounts, hhome]
  · next home hhome =>
    obtain ⟨extra, _, _, -, hextra, h⟩ := Attempt.through_bind_ok h
    obtain ⟨command, _, _, -, -, h⟩ := Attempt.through_bind_ok h
    rw [← Except.ok.inj (through_done.1 h).2, ownMounts_of_through hhome hextra]

/-- Containers are asked for by two kinds of steps only. -/
theorem creation?_of_mayAsk {step : Step} {call : EngineCall} (h : step.MayAsk call)
    (hcaches : step ≠ .initialiseCaches)
    (hcreate : ∀ c image network, step ≠ .createContainer c image network) :
    call.creation? = none := by
  cases call with
  | createContainer request =>
    cases step with
    | initialiseCaches => exact absurd rfl hcaches
    | createContainer c image network => exact absurd rfl (hcreate c image network)
    | _ => exact h.elim
  | _ => rfl

/-- **Two kinds of containers are asked for**: those of the task, and one that hands over its
caches. -/
theorem within_perform_of {mayAsk : EngineCall → Prop} (hg : w.graph.WellFormed)
    (hpart : ∀ {c : String} {k : Container} {image : Image} {network : Network}
      {history : List Deed} {request : CreateRequest}, w.graph.container? c = some k →
        (w.creationRequest k image network).run.Through history (.ok request) →
          mayAsk (.createContainer request))
    (hhelper : ∀ (caches : NameMap Cache) (image : Image),
      Cache.resolve w.graph w.caches = .ok caches → mayAsk (.createContainer
        (w.handOverRequest image (caches.values.filterMap volumeToHandOver?))))
    (hother : ∀ call : EngineCall, call.creation? = none → mayAsk call) (step : Step) :
    (w.perform step).Within (fun _ => True) mayAsk := by
  by_cases hcaches : step = .initialiseCaches
  · subst hcaches
    have hprepare : w.prepareCaches.run.Within (fun _ => True) mayAsk :=
      within_prepareCaches_of fun caches hresolve =>
        within_handOver_of _ (hother _ rfl) (fun image => hhelper caches image hresolve)
          (fun _ => hother _ rfl) (fun _ => hother _ rfl) fun _ => hother _ rfl
    refine hprepare.bind fun outcome => ?_
    cases outcome <;> exact .tell trivial
  by_cases hcreate : ∃ c image network, step = .createContainer c image network
  · obtain ⟨c, image, network, rfl⟩ := hcreate
    show (w.createContainer c image network).Within _ _
    unfold createContainer
    split
    · exact .tell trivial
    · next k hk =>
      have hasks : (w.creationRequest k image network).run.Within (fun _ => True) mayAsk :=
        (w.within_creationRequest k image network).mono (fun _ _ => trivial) fun _ => False.elim
      refine hasks.bind_through fun history outcome h => ?_
      cases outcome with
      | error message => exact .tell trivial
      | ok request =>
        refine (Within.quietly (hpart hk h)).bind fun reply => ?_
        cases reply <;> exact .tell trivial
  · have hnot : ∀ c image network, step ≠ .createContainer c image network :=
      fun c image network hstep => hcreate ⟨c, image, network, hstep⟩
    exact (tells_perform hg step).within.mono (fun _ _ => trivial) fun call hcall =>
      hother call (creation?_of_mayAsk hcall hcaches hnot)

/-- A worker asks only for containers of its task, with the volumes that these have, and for one
that hands over caches. -/
theorem creates_perform (hg : w.graph.WellFormed) (step : Step) :
    (w.perform step).Within (fun _ => True) w.MayCreate := by
  refine within_perform_of hg ?_ (fun _ image _ => .helper image _) ?_ step
  · intro c k image network history request hk h
    exact .container hk (knownAs_of_through h) (mounts_of_through h)
  · intro call hcall
    cases call <;> trivial

end Worker

theorem Deed.Within.exists_call {mayPost : Event → Prop} {mayAsk : EngineCall → Prop} {d : Deed}
    {request : CreateRequest} (h : d.Within mayPost mayAsk)
    (hrequest : d.creation? = some request) :
    ∃ call : EngineCall, mayAsk call ∧ call.creation? = some request := by
  cases d with
  | asked call => exact ⟨call, h, hrequest⟩
  | answered call reply => exact ⟨call, h, hrequest⟩
  | posted | changed => cases hrequest

/-- Whatever step a worker carries out, and however far it has come: what it has asked for is a
container that it may ask for. -/
theorem Worker.creates_of_goes {w : Worker} {step : Step} {history : List Deed}
    {errand : Errand Unit} {d : Deed} {request : CreateRequest} (hg : w.graph.WellFormed)
    (h : (Errand.free (w.perform step)).Goes history errand) (hd : d ∈ history)
    (hrequest : d.creation? = some request) : w.Creates request := by
  obtain ⟨call, hmay, hcreation⟩ := (h.within (creates_perform hg step) d hd).exists_call hrequest
  cases call with
  | createContainer other => exact Option.some.inj hcreation ▸ hmay
  | _ => cases hcreation

/-! ## The directories that are mounted -/

/-- The containers of a task are those of the project, with their paths from its directory. -/
theorem Graph.container?_of_resolve {g : Graph} {task c : String} {k : Container}
    (h : Graph.resolve project task = .ok g) (hk : g.container? c = some k) :
    ∃ settings, project.container? c = some settings ∧
      k = .ofSettings project.baseDirectory c settings := by
  obtain ⟨_, _, found, -, -, -, hnodes, -⟩ := resolve_found h
  obtain ⟨node, hnode, rfl⟩ := Option.map_eq_some_iff.1 hk
  rw [hnodes] at hnode
  obtain ⟨_, settings, -, hsettings, rfl⟩ := get?_nodesOf.1 hnode
  exact ⟨settings, hsettings, rfl⟩

theorem Worker.hostPath?_mount {w : Worker} (h : w.caches = project.cacheStores)
    (volume : VolumeSettings) :
    (w.mount (volume.mount project.baseDirectory)).hostPath? = project.hostPath? volume := by
  cases volume with
  | host source target options => rfl
  | cache name target =>
    unfold VolumeSettings.mount Worker.mount Project.hostPath?
    dsimp only
    rw [h]
    cases project.cacheStores.store name <;> rfl

/-- Whether a request for a container of the project mounts its volumes. -/
structure Project.Equips (project : Project) (settings : ContainerSettings)
    (request : CreateRequest) : Prop where
  configured : ∃ container, request.knownAs = some container ∧
    project.container? container = some settings
  /-- The volumes come first, in the order of the settings. -/
  mounts : settings.volumes.map project.hostPath? <+: request.mounts.map Mount.hostPath?

theorem Worker.hostPath?_handOverMounts (volumes : List String) :
    ∀ mount ∈ handOverMounts volumes, mount.hostPath? = none := by
  intro mount hmount
  obtain ⟨⟨volume, index⟩, -, rfl⟩ := List.mem_map.1 hmount
  rfl

/-- A worker for a task of a project asks for containers with the volumes of their settings, or for
one without any directory of the host. -/
theorem Worker.Creates.equips {task : String} {host : Host} {m : Machine}
    {request : CreateRequest} (h : (Worker.forTask project host m).Creates request)
    (hresolve : Graph.resolve project task = .ok m.graph) :
    (request.knownAs = none ∧ ∀ mount ∈ request.mounts, mount.hostPath? = none) ∨
      ∃ settings, project.Equips settings request := by
  cases h with
  | container part known mounts =>
    obtain ⟨settings, hsettings, rfl⟩ := Graph.container?_of_resolve hresolve part
    have hvolumes : ((settings.volumes.map (·.mount project.baseDirectory)).map
        (Worker.forTask project host m).mount).map Mount.hostPath? =
          settings.volumes.map project.hostPath? := by
      rw [List.map_map, List.map_map]
      exact List.map_congr_left fun volume _ => hostPath?_mount rfl volume
    refine .inr ⟨settings, ⟨_, known, hsettings⟩, ?_⟩
    rw [mounts, List.map_append, Container.ofSettings, hvolumes]
    exact List.prefix_append _ _
  | helper image volumes => exact .inl ⟨rfl, hostPath?_handOverMounts volumes⟩

/-- **Which directories the engine is given by a path from the root**: those that were named from
the root themselves, and all of them if the project file was, or if it was named without any
directory. This holds of every request to create a container, whatever step asks for it. -/
theorem isAbsolute_hostPath_iff {σ : Type} {place : Workplace σ} {file : Path} {world : σ}
    {task : String} {host : Host} {m : Machine} {step : Step} {history : List Deed}
    {errand : Errand Unit} {d : Deed} {request : CreateRequest}
    (hproject : Invocation.project place file world = .ok project)
    (hworking : place.workingDirectory.isAbsolute = true)
    (hresolve : Graph.resolve project task = .ok m.graph)
    (hgoes : (Errand.free ((Worker.forTask project host m).perform step)).Goes history errand)
    (hd : d ∈ history) (hrequest : d.creation? = some request) :
    (request.knownAs = none ∧ ∀ mount ∈ request.mounts, mount.hostPath? = none) ∨
      ∃ settings, project.Equips settings request ∧
        ∀ volume ∈ settings.volumes, ∀ path, project.hostPath? volume = some path →
          (path.isAbsolute = true ↔
            file.isAbsolute = true ∨ holdingDirectory? file = none ∨ volume.FromRoot) := by
  have hcreates : (Worker.forTask project host m).Creates request :=
    Worker.creates_of_goes (Graph.wellFormed_of_resolve hresolve) hgoes hd hrequest
  rcases hcreates.equips hresolve with hnone | ⟨settings, hequips⟩
  · exact .inl hnone
  · refine .inr ⟨settings, hequips, fun volume hvolume path hpath => ?_⟩
    obtain ⟨container, -, hcontainer⟩ := hequips.configured
    rw [isAbsolute_hostPath hcontainer hvolume hpath, baseDirectory_of_project hproject,
      isAbsolute_projectDirectory_iff hworking, or_assoc]

end

/-- The containers that an engine is asked for which refuses nothing, when one step is carried
out. -/
def Worker.madeFor (w : Worker) (step : Step) : List CreateRequest :=
  (w.runStep (Obliging.surroundings fun _ => false) step []).2.filterMap (·.call.creation?)

theorem Worker.exists_history_of_madeFor {w : Worker} {step : Step} {request : CreateRequest}
    (h : request ∈ w.madeFor step) : ∃ history d, (w.perform step).Through history () ∧
      d ∈ history ∧ d.creation? = some request := by
  obtain ⟨history, hthrough, -, hremembered⟩ := exists_history_of_runStep
    (Obliging.answers fun _ => false) (Obliging.remembers fun _ => false) w step []
  have hmemory : (w.runStep (Obliging.surroundings fun _ => false) step []).2 =
      history.filterMap Deed.success? := hremembered
  obtain ⟨success, hsuccess, hcreation⟩ := List.mem_filterMap.1 h
  rw [hmemory] at hsuccess
  obtain ⟨d, hd, hsucceeds⟩ := List.mem_filterMap.1 hsuccess
  refine ⟨history, d, hthrough, hd, ?_⟩
  unfold Deed.success? at hsucceeds
  split at hsucceeds
  · rw [← Option.some.inj hsucceeds] at hcreation
    exact hcreation
  · cases hsucceeds

/-! ## A studio with its project file in a drawer -/

namespace Studio

/-- The project file. -/
def text : String :=
  "project_name = \"studio\"
[config]
cache_type = \"directory\"
[containers.easel]
image = \"wood\"
volumes = [
  \x7b type = \"local\", local = \"sketches\", container_path = \"/sketches\" \x7d,
  \x7b type = \"cache\", name = \"paint\", container_path = \"/paint\" \x7d]
[tasks.paint]
run = \x7b container = \"easel\" \x7d
"

/-- Where the program is called. -/
def place : Workplace (List Success) where
  surroundings := Obliging.surroundings fun _ => false
  host := Workshop.host
  workingDirectory := ⟨"/studio"⟩
  read := fun _ _ => .ok text
  print := fun _ world => world
  complain := fun _ world => world

/-- What the file says. -/
def settings : ProjectSettings where
  projectName := "studio"
  cacheKind := .directory
  containers := .ofList [
    ("easel", { image := some "wood",
                volumes := [.host ⟨"sketches"⟩ "/sketches" none, .cache "paint" "/paint"] })]
  tasks := .ofList [("paint", { run := some { container := "easel" } })]

/-- The project, when its file is named like this. -/
def project (file : Path) : Project where
  settings
  baseDirectory := projectDirectory place.workingDirectory file
  valid := by decide

theorem project_read (file : Path) : Invocation.project place file [] = .ok (project file) := by
  have htext : Document.settings? text = some settings := by decide +kernel
  exact project_eq_ok rfl htext _

/-- The work. -/
def machine (file : Path) : Machine where
  graph := {
    projectName := "studio"
    taskName := "paint"
    run := { container := "easel" }
    nodes := Graph.nodesOf (project file) (.ofList [("easel", ∅)]) }
  options := { task := "paint" }

/-- Who does it. -/
def worker (file : Path) : Worker := .forTask (project file) place.host (machine file)

/-- The step that sets the easel up. -/
def setUp : Step := .createContainer "easel" ⟨"wood"⟩ ⟨"network"⟩

/-- What is mounted from the host when the easel is set up. -/
def mounted (file : Path) : List (List (Option Path)) :=
  (((worker file).runStep place.surroundings setUp []).2.filterMap (·.call.creation?)).map
    fun request => request.mounts.map Mount.hostPath?

theorem exists_request {file : Path} {paths : List (Option Path)} (h : mounted file = [paths]) :
    ∃ history d request, ((worker file).perform setUp).Through history () ∧ d ∈ history ∧
      d.creation? = some request ∧ request.mounts.map Mount.hostPath? = paths := by
  have hpaths : paths ∈ ((worker file).madeFor setUp).map
      fun request => request.mounts.map Mount.hostPath? := by
    show paths ∈ mounted file
    simp [h]
  obtain ⟨request, hrequest, hmounts⟩ := List.mem_map.1 hpaths
  obtain ⟨history, d, hthrough, hd, hcreation⟩ := Worker.exists_history_of_madeFor hrequest
  exact ⟨history, d, request, hthrough, hd, hcreation, hmounts⟩

/-- The project file, named from inside the studio. -/
def besides : Path := ⟨"dockhand.toml"⟩

/-- Where the engine finds sketches and paint if the project file is named without a directory. -/
theorem sketches_found : ∃ history d request,
    ((worker besides).perform setUp).Through history () ∧ d ∈ history ∧
      d.creation? = some request ∧ request.mounts.map Mount.hostPath? =
        [some ⟨"/studio/sketches"⟩, some ⟨"/studio/.dockhand/caches/paint"⟩] ∧
      ∃ settings, (project besides).Equips settings request ∧
        ∀ volume ∈ settings.volumes, ∀ path,
          (project besides).hostPath? volume = some path → path.isAbsolute = true := by
  have hmounted : mounted besides =
      [[some ⟨"/studio/sketches"⟩, some ⟨"/studio/.dockhand/caches/paint"⟩]] := by
    decide +kernel
  have hresolve : Graph.resolve (project besides) "paint" = .ok (machine besides).graph := by
    decide +kernel
  obtain ⟨history, d, request, hthrough, hd, hrequest, hmounts⟩ := exists_request hmounted
  rcases isAbsolute_hostPath_iff (project_read besides) (by decide) hresolve hthrough hd hrequest
    with ⟨-, hnone⟩ | ⟨settings, hequips, hall⟩
  · have hsome : some ⟨"/studio/sketches"⟩ ∈ request.mounts.map Mount.hostPath? := by
      simp [hmounts]
    obtain ⟨mount, hmount, hpath⟩ := List.mem_map.1 hsome
    rw [hnone mount hmount] at hpath
    nomatch hpath
  · refine ⟨history, d, request, hthrough, hd, hrequest, hmounts, settings, hequips, ?_⟩
    intro volume hvolume path hpath
    exact (hall volume hvolume path hpath).2 (.inr (.inl (by decide)))

/-- The same file in a drawer, named by its way from the studio. -/
def inDrawer : Path := ⟨"drawer/dockhand.toml"⟩

/-- Then the engine is given no path from the root for either of them. -/
theorem sketches_lost : ∃ history d request,
    Invocation.project place inDrawer [] = .ok (project inDrawer) ∧
      place.workingDirectory.isAbsolute = true ∧
      Graph.resolve (project inDrawer) "paint" = .ok (machine inDrawer).graph ∧
      ((worker inDrawer).perform setUp).Through history () ∧ d ∈ history ∧
      d.creation? = some request ∧
      request.mounts.map Mount.hostPath? =
        [some ⟨"drawer/sketches"⟩, some ⟨"drawer/.dockhand/caches/paint"⟩] ∧
      (⟨"drawer/sketches"⟩ : Path).isAbsolute = false ∧
      (⟨"drawer/.dockhand/caches/paint"⟩ : Path).isAbsolute = false := by
  have hmounted : mounted inDrawer =
      [[some ⟨"drawer/sketches"⟩, some ⟨"drawer/.dockhand/caches/paint"⟩]] := by
    decide +kernel
  have hresolve : Graph.resolve (project inDrawer) "paint" = .ok (machine inDrawer).graph := by
    decide +kernel
  obtain ⟨history, d, request, hthrough, hd, hrequest, hmounts⟩ := exists_request hmounted
  exact ⟨history, d, request, project_read inDrawer, by decide, hresolve, hthrough, hd, hrequest,
    hmounts, by decide, by decide⟩

end Studio

end Stevedore
