import Stevedore.Program
import Stevedore.Work.Worker

/-!
Making the caches of a task ready. Directories are created on the host. Volumes belong to root when
an engine makes them, so those of containers that run as the current user are handed over first, by
a container that lives only for that.
-/

namespace Stevedore.Worker

variable (w : Worker)

/-- The image of the container that hands volumes over. -/
def cacheInitImage : String := "busybox:1.36"

/-- The directory of a cache, if that is where it is kept. -/
def cacheDirectory? (cache : Cache) : Option Path :=
  match cache.store with
  | .directory path => some path
  | .volume _ => none

/-- The volume of a cache, if it has to be handed over to the current user. -/
def volumeToHandOver? (cache : Cache) : Option String :=
  match cache.store with
  | .volume name => if cache.runAsCurrentUser then some name else none
  | .directory _ => none

/-- Where the volumes to hand over are mounted. -/
def handOverMounts (volumes : List String) : List Mount :=
  volumes.zipIdx.map fun (volume, index) => ⟨.volume volume, s!"/caches/{index}", none⟩

/-- The container that hands the volumes over. -/
def handOverRequest (image : Image) (volumes : List String) : CreateRequest :=
  let mounts := handOverMounts volumes
  let targets := " ".intercalate (mounts.map (·.target))
  { name := w.names.cacheInit
    image
    network := ⟨"default"⟩
    knownAs := none
    command := ["sh", "-c", s!"chown {w.user.userAndGroup} {targets}"]
    environment := ∅
    workingDirectory := none
    mounts
    user := none }

/-- Hands volumes over to the current user. The container is removed however it ends. -/
def handOver (volumes : List String) : Attempt Unit := do
  let image ← Attempt.engine "Could not pull the cache initialisation image"
    (.pullImage cacheInitImage false)
  let handle ← Attempt.engine "Could not create the cache initialisation container"
    (.createContainer (w.handOverRequest image volumes))
  let outcome ← ExceptT.lift <| ExceptT.run do
    Attempt.engine "Could not start the cache initialisation container" (.startContainer handle)
    Attempt.engine "Could not run the cache initialisation container" (.waitForExit handle)
  let _ ← ExceptT.lift (Program.quietly (.removeContainer handle))
  let exitCode : Int ← liftExcept outcome
  if exitCode ≠ 0 then
    throw s!"The cache initialisation container exited with code {exitCode}."
where
  liftExcept (outcome : Except String Int) : Attempt Int := ExceptT.mk (.done outcome)

/-- Creates the directories of the caches. -/
def createCacheDirectories : List Cache → Attempt Unit
  | [] => pure ()
  | cache :: rest => do
    if let some path := cacheDirectory? cache then
      Attempt.files s!"Could not create directory for cache '{cache.name}'" (.createDirectory path)
    createCacheDirectories rest

/-- Makes the caches of the task ready. -/
def prepareCaches : Attempt Unit :=
  match Cache.resolve w.graph w.caches with
  | .error conflict => throw conflict.message
  | .ok caches => do
    createCacheDirectories caches.values
    match caches.values.filterMap volumeToHandOver? with
    | [] => pure ()
    | volumes => w.handOver volumes

/-- The step that makes the caches ready. -/
def initialiseCaches : Program Unit := do
  match ← w.prepareCaches.run with
  | .ok () => Program.tell .cachesInitialised
  | .error message => Program.tell (.cacheInitialisationFailed message)

end Stevedore.Worker
