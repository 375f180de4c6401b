import Stevedore.Graph.Basic
import Stevedore.Summary

/-!
The steps that may start next. Each container goes through its stages one by one: image, creation,
start, health, setup commands. It is created when the containers it waits for are ready, and the
main container is run at the end.
-/

namespace Stevedore

/-- The tag of an image that is built for a container. -/
def imageTag (project container : String) : String := project ++ "-" ++ container

namespace Graph

variable (g : Graph) (s : Summary)

/-- The step that makes a container's image available. -/
def imageStep (c : Container) : Step :=
  match c.image with
  | .build .. => .buildImage c.name [imageTag g.projectName c.name]
  | .pull reference => .pullImage reference

/-- The step that creates a container, once there are an image, the network and the caches, and
the containers it waits for are ready. -/
def creationStep? (c : Container) : Option Step := do
  let image ← s.image? c
  let network ← s.network
  guard s.cachesInitialised
  guard ((g.dependencies c.name).toList.all s.ready.contains)
  return .createContainer c.name image network

/-- The next stage of a container. -/
def containerStep? (c : Container) : Option Step :=
  match s.created.get? c.name with
  | none => g.creationStep? s c
  | some handle =>
    if !s.started.contains c.name then some (.startContainer c.name handle)
    else if !s.healthy.contains c.name then some (.awaitHealth c.name handle)
    else if !s.ready.contains c.name then some (.runSetupCommands c.name handle)
    else if g.isMain c.name then some (.runContainer c.name handle)
    else none

/-- The steps that one container calls for, whether or not they have been started. -/
def stepsFor (c : Container) : List Step :=
  (if s.created.contains c.name then [] else [g.imageStep c]) ++ (g.containerStep? s c).toList

/-- All steps that the state calls for, whether or not they have been started. -/
def wantedSteps : List Step :=
  [.createNetwork, .initialiseCaches] ++ g.containers.flatMap (g.stepsFor s)

/-- The steps of a list that have not been started, each once. -/
def freshSteps (steps : List Step) : List Step :=
  steps.foldl
    (fun fresh step =>
      if s.wasDispatched step || fresh.any step.same then fresh else fresh ++ [step])
    []

/-- The steps that may start next: none once the task has failed or its main container exited. -/
def nextSteps : List Step :=
  if s.hasFailed || s.exited.contains g.main then [] else freshSteps s (g.wantedSteps s)

end Graph

end Stevedore
