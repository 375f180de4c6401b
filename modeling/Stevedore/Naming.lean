import Stevedore.Path

/-!
The names that one run gives to what it makes in the engine and on the host. Each carries the
suffix of the run, so two runs of one task do not get in each other's way.
-/

namespace Stevedore

/-- The lower case of a character that engines take in a name, a dash for any other. -/
def nameChar (c : Char) : Char :=
  if c.isAlphanum || c = '-' || c = '_' || c = '.' then c.toLower else '-'

/-- The text made fit for a name. -/
def sanitised (s : String) : String := String.ofList (s.toList.map nameChar)

/-- What the names of one run are made of. -/
structure RunNames where
  project : String
  task : String
  suffix : String
deriving DecidableEq, Repr

namespace RunNames

/-- The names for one run of a task. -/
def ofRun (project task suffix : String) : RunNames :=
  ⟨sanitised project, sanitised task, sanitised suffix⟩

/-- The name of the run's network. -/
def network (n : RunNames) : String := n.project ++ "-" ++ n.task ++ "-" ++ n.suffix

/-- The name of a container of the run. -/
def container (n : RunNames) (name : String) : String :=
  n.project ++ "-" ++ sanitised name ++ "-" ++ n.suffix

/-- The name of the container that hands caches to the current user. -/
def cacheInit (n : RunNames) : String := n.project ++ "-cache-init-" ++ n.suffix

/-- A temporary path below `base` that belongs to a container. -/
def temporary (n : RunNames) (base : Path) (container purpose : String) : Path :=
  base.join ⟨"dockhand-" ++ n.project ++ "-" ++ sanitised container ++ "-" ++ n.suffix ++ "-" ++
    purpose⟩

end RunNames

end Stevedore
