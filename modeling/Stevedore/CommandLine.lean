import Stevedore.LogFilter
import Stevedore.Options
import Stevedore.Project.Location

/-!
The arguments of the program: options, one task, and after two dashes the arguments for the task.
Arguments are read from left to right. The value of an option is looked at only once the argument
after it has turned out to be a new one, so of two mistakes the later one can be reported.
-/

namespace Stevedore

/-- What the program is asked to do. -/
structure CommandLine where
  projectFile : Path
  logLevel : Option LogLevel
  options : Options
  skipPrerequisites : Bool
  dryRun : Bool
deriving DecidableEq

namespace CommandLine

/-- The options without a value. -/
inductive Switch where
  | noCleanupAfterSuccess
  | noCleanupAfterFailure
  | noCleanup
  | noProxyVariables
  | skipPrerequisites
  | dryRun
  | help
  | version
deriving DecidableEq, Repr

/-- The options with a value. -/
inductive Setting where
  | projectFile
  | logLevel
  | maxParallelism
deriving DecidableEq, Repr

/-- Why arguments are not carried out. -/
inductive Problem where
  | taskMissing
  | unknown (argument : String)
  | valueMissing (setting : Setting)
  | noSuchLevel (value : String)
  | noSuchNumber (value : String)
  | repeated (name : String)
  | valueNotWanted (name : String)
  /-- Help is asked for. -/
  | help
  /-- The version is asked for. -/
  | version
deriving DecidableEq, Repr

/-! ## Names -/

/-- The switch of a name. -/
def switch? : String → Option Switch
  | "no-cleanup-after-success" => some .noCleanupAfterSuccess
  | "no-cleanup-after-failure" => some .noCleanupAfterFailure
  | "no-cleanup" => some .noCleanup
  | "no-proxy-vars" => some .noProxyVariables
  | "skip-prerequisites" => some .skipPrerequisites
  | "dry-run" => some .dryRun
  | "help" => some .help
  | "version" => some .version
  | _ => none

/-- The setting of a name. -/
def setting? : String → Option Setting
  | "config" => some .projectFile
  | "log-level" => some .logLevel
  | "max-parallelism" => some .maxParallelism
  | _ => none

/-- How a setting is named to the user. -/
def Setting.name : Setting → String
  | projectFile => "--config <PATH>"
  | logLevel => "--log-level <LEVEL>"
  | maxParallelism => "--max-parallelism <N>"

/-! ## Values -/

/-- The level of a name. There is no name for none at all. -/
def level? (value : String) : Option LogLevel :=
  (LogLevel.all.filter (· ≠ .off)).find? fun level => level.name = value

/-- A number of steps at once: from 1 to the greatest number of 16 bits. -/
def parallelism? (value : String) : Option Nat :=
  match Text.readInt64? value.toList with
  | some n => if 1 ≤ n ∧ n ≤ 65535 then some n.toNat else none
  | none => none

/-! ## Reading -/

/-- What has been read of the arguments. -/
structure Draft where
  task : Option String := none
  arguments : List String := []
  switches : List Switch := []
  projectFile : Option Path := none
  logLevel : Option LogLevel := none
  maxParallelism : Option Nat := none
  /-- The option that was read last, whose value has not been looked at, and the value if it has
  been met. -/
  pending : Option (Setting × Option String) := none

namespace Draft

/-- Takes a value that may be given once. -/
def once {α : Type} (s : Setting) (old : Option α) (value : Except Problem α) :
    Except Problem (Option α) :=
  if old.isSome then .error (.repeated s.name) else value.map some

/-- Sets a value. -/
def set (d : Draft) (s : Setting) (value : String) : Except Problem Draft :=
  match s with
  | .projectFile => do
    return { d with projectFile := ← once s d.projectFile (.ok ⟨value⟩) }
  | .logLevel => do
    let level := (level? value).elim (.error (.noSuchLevel value)) .ok
    return { d with logLevel := ← once s d.logLevel level }
  | .maxParallelism => do
    let n := (parallelism? value).elim (.error (.noSuchNumber value)) .ok
    return { d with maxParallelism := ← once s d.maxParallelism n }

/-- Looks at the value of the last option. -/
def settle (d : Draft) : Except Problem Draft :=
  match d.pending with
  | none => .ok d
  | some (s, none) => .error (.valueMissing s)
  | some (s, some value) => set { d with pending := none } s value

/-- Turns a switch. Help and the version are given as soon as they are asked for. -/
def turn (d : Draft) (s : Switch) (name : String) : Except Problem Draft := do
  let d ← d.settle
  match s with
  | .help => throw .help
  | .version => throw .version
  | _ =>
    if s ∈ d.switches then throw (.repeated name)
    else return { d with switches := s :: d.switches }

/-- Takes an option with a value, which may be attached to it. -/
def offer (d : Draft) (s : Setting) (attached : Option String) : Except Problem Draft := do
  let d ← d.settle
  match attached with
  | some value => d.set s value
  | none => return { d with pending := some (s, none) }

/-- Takes an argument that starts with two dashes: a name, and perhaps an equals sign and a
value. -/
def long (d : Draft) (text : List Char) : Except Problem Draft :=
  let name := String.ofList (text.takeWhile (· ≠ '='))
  let attached :=
    match text.dropWhile (· ≠ '=') with
    | _ :: value => some (String.ofList value)
    | [] => none
  match setting? name, switch? name, attached with
  | some s, _, _ => d.offer s attached
  | none, some s, none => d.turn s ("--" ++ name)
  | none, some _, some _ => .error (.valueNotWanted ("--" ++ name))
  | none, none, _ => .error (.unknown ("--" ++ name))

/-- Takes an argument that starts with one dash: a letter, and perhaps a value. -/
def short (d : Draft) : List Char → Except Problem Draft
  | ['f'] => d.offer .projectFile none
  | 'f' :: '=' :: value => d.offer .projectFile (some (String.ofList value))
  | 'f' :: value => d.offer .projectFile (some (String.ofList value))
  | 'h' :: _ => d.turn .help "-h"
  | 'V' :: _ => d.turn .version "-V"
  | letters => .error (.unknown (String.ofList ('-' :: letters.take 1)))

/-- Takes an argument that is no option. -/
def word (d : Draft) (text : String) : Except Problem Draft :=
  match d.pending, d.task with
  | some (s, none), _ => .ok { d with pending := some (s, some text) }
  | _, some _ => .error (.unknown text)
  | _, none => do
    let d ← d.settle
    return { d with task := some text }

/-- Takes one argument before two dashes. -/
def take (d : Draft) (argument : String) : Except Problem Draft :=
  match argument.toList with
  | '-' :: '-' :: text => d.long text
  | '-' :: c :: text => d.short (c :: text)
  | _ => d.word argument

/-- Takes all arguments. -/
def takeAll (d : Draft) : List String → Except Problem Draft
  | [] => d.settle
  | "--" :: rest => do
    let d ← d.settle
    return { d with arguments := rest }
  | argument :: rest => do
    let d ← d.take argument
    d.takeAll rest

/-- Whether a switch was turned. -/
def has (d : Draft) (s : Switch) : Bool := s ∈ d.switches

/-- What cleanup a switch leaves. -/
def policy (d : Draft) (s : Switch) : CleanupPolicy :=
  if d.has s || d.has .noCleanup then .keep else .cleanup

/-- What the arguments ask for. -/
def finish (d : Draft) : Except Problem CommandLine :=
  match d.task with
  | none => .error .taskMissing
  | some task => .ok {
      projectFile := d.projectFile.getD defaultProjectFile
      logLevel := d.logLevel
      options := {
        task
        additionalArguments := d.arguments
        afterSuccess := d.policy .noCleanupAfterSuccess
        afterFailure := d.policy .noCleanupAfterFailure
        propagateProxy := !d.has .noProxyVariables
        maxParallelism := d.maxParallelism }
      skipPrerequisites := d.has .skipPrerequisites
      dryRun := d.has .dryRun }

end Draft

/-- Reads the arguments of the program. -/
def read (arguments : List String) : Except Problem CommandLine := do
  let d ← Draft.takeAll {} arguments
  d.finish

/-! ## What the user is told -/

/-- The version of the program. -/
def version : String := "dockhand 0.1.0"

/-- How the program is called. -/
def usage : String := "Usage: dockhand [OPTIONS] <TASK> [-- <ARGS>...]"

/-- What the program offers. -/
def help : String := "\n".intercalate [
  "Run a task in containers: build or pull images, start dependencies, run, clean up.",
  "",
  usage,
  "",
  "Arguments:",
  "  <TASK>     Task to run",
  "  [ARGS]...  Extra arguments appended to the main container's command",
  "",
  "Options:",
  "  -f, --config <PATH>             Path to the config file (TOML) [default: dockhand.toml]",
  "      --log-level <LEVEL>         Logging level (error, warn, info, debug, trace)",
  "      --no-cleanup-after-success  Leave containers running after the task succeeds",
  "      --no-cleanup-after-failure  " ++
    "Leave containers running after the task fails, to diagnose the issue",
  "      --no-cleanup                " ++
    "Shorthand for both --no-cleanup-after-success and --no-cleanup-after-failure",
  "      --no-proxy-vars             " ++
    "Don't propagate the host's proxy environment variables into image builds and containers",
  "      --max-parallelism <N>       Run at most this many steps at once",
  "      --skip-prerequisites        Run only the requested task, not its prerequisites",
  "      --dry-run                   " ++
    "Resolve the task and print its containers, but don't touch the container engine",
  "  -h, --help                      Print help",
  "  -V, --version                   Print version"]

namespace Problem

/-- Whether it is no mistake: the user asked for something else than a run. -/
def isRequest : Problem → Bool
  | help | version => true
  | _ => false

/-- What the user is told. -/
def message : Problem → String
  | taskMissing =>
    s!"error: the following required arguments were not provided:\n  <TASK>\n\n{usage}"
  | unknown argument => s!"error: unexpected argument '{argument}' found\n\n{usage}"
  | valueMissing s => s!"error: a value is required for '{s.name}' but none was supplied"
  | noSuchLevel value =>
    s!"error: invalid value '{value}' for '{Setting.logLevel.name}'\n" ++
      "  [possible values: error, warn, info, debug, trace]"
  | noSuchNumber value => s!"error: invalid value '{value}' for '{Setting.maxParallelism.name}'"
  | repeated name => s!"error: the argument '{name}' cannot be used multiple times\n\n{usage}"
  | valueNotWanted name => s!"error: unexpected value for '{name}' found; no more were expected"
  | help => CommandLine.help
  | version => CommandLine.version

end Problem

end CommandLine

end Stevedore
