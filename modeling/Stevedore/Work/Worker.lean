import Stevedore.Cache
import Stevedore.Engine.Objects
import Stevedore.Naming
import Stevedore.Options
import Stevedore.Proxy
import Stevedore.User

/-!
What the steps of one run have in common: the task, the options, the names that the run gives to
what it makes, and what is taken over from the host.
-/

namespace Stevedore

/-- Everything that the steps of one run need to know. -/
structure Worker where
  graph : Graph
  options : Options
  names : RunNames
  caches : CacheStores
  user : User
  proxy : ProxyVariables
  temporaryDirectory : Path

namespace Worker

variable (w : Worker)

/-- The proxy variables that a container or build gets, if they are passed on at all. -/
def proxyVariables (extra : List String) : NameMap String :=
  if w.options.propagateProxy then w.proxy.passedOn extra else ∅

/-- The arguments of a build: the configured ones over the proxy variables. -/
def buildArguments (configured : NameMap String) : NameMap String :=
  (w.proxyVariables []).union configured

/-- The environment of a container and of commands in it. The proxy variables come first, the
container's own environment over them, and for the main container what the task says over both. -/
def environment (c : Container) : NameMap String :=
  let own := (w.proxyVariables w.graph.names).union c.environment
  if w.graph.isMain c.name then own.union w.graph.run.environment else own

/-- The user that a container runs as, if it is not the image's own. -/
def containerUser (c : Container) : Option String :=
  if c.runsAsCurrentUser then some w.user.userAndGroup else none

/-- A volume of a container as the engine mounts it. -/
def mount : VolumeMount → Mount
  | .host source target options => ⟨.hostPath source, target, options⟩
  | .cache name target =>
    match w.caches.store name with
    | .volume volume => ⟨.volume volume, target, none⟩
    | .directory path => ⟨.hostPath path, target, none⟩

end Worker

end Stevedore
