/-!
What one run of a task is asked for on top of its settings.
-/

namespace Stevedore

/-- What becomes of everything that was created once the task is over. -/
inductive CleanupPolicy where
  | cleanup
  /-- It stays for the user to look into. -/
  | keep
deriving DecidableEq, Repr, Inhabited

/-- The options of one run. -/
structure Options where
  task : String
  /-- Put after the command of the main container. -/
  additionalArguments : List String := []
  afterSuccess : CleanupPolicy := .cleanup
  afterFailure : CleanupPolicy := .cleanup
  /-- Whether builds and containers see the proxy variables of the host. -/
  propagateProxy : Bool := true
  /-- At most this many steps at once; no limit if absent. -/
  maxParallelism : Option Nat := none
deriving DecidableEq, Repr, Inhabited

/-- The options under which a prerequisite runs. The arguments are meant for the requested task
only, and a prerequisite that succeeded is always cleaned up. -/
def Options.forPrerequisite (o : Options) (task : String) : Options :=
  { o with task, additionalArguments := [], afterSuccess := .cleanup }

end Stevedore
