import Stevedore.Graph.Teardown
import Stevedore.Summary

/-!
How to take down what a run has made: the containers from the top of the graph downwards, each
stopped before it is removed, then the temporary files and directories, then the network. Caches
stay. Beside the steps stand the commands by which a user would do the same by hand.
-/

namespace Stevedore

/-- The groups of steps that take a run down, one group after the other. -/
structure TeardownPlan where
  groups : List (List Step)
  /-- The commands that do the same by hand. -/
  commands : List String
deriving DecidableEq

namespace TeardownPlan

/-- Whether there is nothing to do. -/
def isEmpty (p : TeardownPlan) : Bool := p.groups.isEmpty

/-- All steps, in order. -/
def steps (p : TeardownPlan) : List Step := p.groups.flatten

end TeardownPlan

/-- The commands that remove everything outstanding: containers by name, files, directories and at
last the network. -/
def manualCommands (s : Summary) : List String :=
  (s.outstandingContainers.values.map fun handle => s!"docker rm --force --volumes {handle.id}") ++
  (s.outstandingFiles.map fun path => s!"rm {path}") ++
  (s.outstandingDirectories.map fun path => s!"rm -rf {path}") ++
  (s.outstandingNetwork?.toList.map fun network => s!"docker network rm {network.id}")

/-- The two groups that take down one layer of containers. -/
def layerGroups (s : Summary) (layer : List String) : List (List Step) :=
  let existing := layer.filterMap fun name => (s.created.get? name).map fun handle => (name, handle)
  [(existing.filter fun (name, _) => s.isRunning name).map fun (name, handle) =>
      Step.stopContainer name handle,
   existing.map fun (name, handle) => Step.removeContainer name handle]

/-- The plan that takes down everything outstanding. -/
def Graph.teardownPlan (g : Graph) (s : Summary) : TeardownPlan where
  groups :=
    ((g.teardownOrder (.ofList s.outstandingContainers.keys)).flatMap (layerGroups s) ++
      [s.outstandingFiles.map Step.deleteFile ++ s.outstandingDirectories.map Step.deleteDirectory,
       s.outstandingNetwork?.toList.map Step.deleteNetwork]).filter (!·.isEmpty)
  commands := manualCommands s

end Stevedore
