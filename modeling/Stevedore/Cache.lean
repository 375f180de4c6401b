import Stevedore.Graph.Basic
import Stevedore.Project.Check

/-!
Caches outlive a run. Each has one store in its project, and all containers that mount it either
run as the current user or do not, because the store has one owner.
-/

namespace Stevedore

/-- Where the contents of a cache are. -/
inductive CacheStore where
  | volume (name : String)
  | directory (path : Path)
deriving DecidableEq, Repr

/-- What decides where the caches of a project are. -/
structure CacheStores where
  projectName : String
  kind : CacheKind
  baseDirectory : Path
deriving DecidableEq, Repr

/-- Where the project keeps its caches. -/
def Project.cacheStores (project : Project) : CacheStores :=
  ⟨project.name, project.settings.cacheKind, project.baseDirectory⟩

/-- The store of a cache. -/
def CacheStores.store (s : CacheStores) (cache : String) : CacheStore :=
  match s.kind with
  | .volume => .volume s!"dockhand-cache-{s.projectName}-{cache}"
  | .directory => .directory (((s.baseDirectory.join ⟨".dockhand"⟩).join ⟨"caches"⟩).join ⟨cache⟩)

/-- A cache and who uses it. -/
structure Cache where
  name : String
  store : CacheStore
  /-- Whether the containers that mount it run as the current user. -/
  runAsCurrentUser : Bool
  containers : NameSet
deriving DecidableEq

/-- Two containers share a cache that cannot belong to both. -/
structure CacheConflict where
  cache : String
  first : String
  second : String
deriving DecidableEq, Repr

/-- The conflict in words. -/
def CacheConflict.message (c : CacheConflict) : String :=
  s!"Containers '{c.first}' and '{c.second}' share the '{c.cache}' cache, but one has run as " ++
    "current user enabled and the other does not. Caches can only be shared by containers if " ++
    "they either both have run as current user enabled or both have it disabled."

namespace Cache

/-- Adds one container's use of a cache. -/
def addMount (stores : CacheStores) (container : Container) (caches : NameMap Cache)
    (cache : String) : Except CacheConflict (NameMap Cache) :=
  match caches.get? cache with
  | none =>
    .ok <| caches.insert cache
      ⟨cache, stores.store cache, container.runsAsCurrentUser, .ofList [container.name]⟩
  | some known =>
    if known.runAsCurrentUser = container.runsAsCurrentUser then
      .ok <| caches.insert cache { known with containers := known.containers.insert container.name }
    else .error ⟨cache, known.containers.toList.headD "", container.name⟩

/-- The caches that the containers of a task mount. -/
def resolve (graph : Graph) (stores : CacheStores) : Except CacheConflict (NameMap Cache) :=
  graph.containers.foldlM
    (fun caches container =>
      (container.cacheMounts.map (·.1)).foldlM (addMount stores container) caches)
    ∅

end Cache

end Stevedore
