import Stevedore.Execution

/-!
Steps that do nothing by themselves. What each of them posts is fixed beforehand; it may also
interrupt the run, or be broken off.
-/

namespace Stevedore.Rehearsal

/-- What the steps do, by their text. -/
structure CannedSteps where
  outcomes : NameMap (List Event)
  crashing : List String := []
  cancelling : List String := []

/-- The steps that were run, and whether the run has been interrupted. -/
structure CannedWorld where
  isCancelled : Bool := false
  ran : List String := []

/-- Surroundings in which nothing is asked or changed. -/
def cannedSurroundings : Surroundings CannedWorld where
  ask := fun _ _ w => (([], .crash), w)
  change := fun _ w => (.ok (), w)
  isCancelled := (·.isCancelled)

namespace CannedSteps

/-- The events that a step posts. -/
def events (c : CannedSteps) (step : Step) : List Event := (c.outcomes.get? step.text).getD []

/-- Runs a step: what it posts comes first. -/
def start (c : CannedSteps) : Beginning CannedWorld := fun _ step s =>
  let s := { s with world := { s.world with ran := s.world.ran ++ [step.text] } }
  let s := cannedSurroundings.postAll (c.events step) s
  let s := { s with world := { s.world with
    isCancelled := s.world.isCancelled || step.text ∈ c.cancelling } }
  (s, .ended (if step.text ∈ c.crashing then .crashed else .finished))

/-- As many batches as a run can have. With `n` events in all there are no more than `n` images,
networks and handles, and a step is started once for each choice of them. -/
def roundLimit (c : CannedSteps) (g : Graph) : Nat :=
  let n := (c.outcomes.values.map List.length).foldl (· + ·) 0
  4 + g.nodes.size * (1 + n * n + 4 * n)

/-- Runs a task with these steps. -/
def run (c : CannedSteps) (m : Machine) : CannedWorld → Course CannedWorld TaskReport :=
  Execution.run cannedSurroundings c.start m (c.roundLimit m.graph)

end CannedSteps

end Stevedore.Rehearsal
