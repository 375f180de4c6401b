import Stevedore.Project.Settings
import Stevedore.Toml.Fit
import Stevedore.Toml.Reader

/-!
The settings of a project as a TOML document writes them. Keys that mean nothing are passed over,
but the numbers under them have to fit; a missing required key or a value of the wrong kind makes
the whole document unreadable.

A record may be written as a table or, by position, as an array of its fields in the order in which
they are named here. Items after the last field are not looked at. A date counts as a table with its
text under one key that is no name of a field.
-/

namespace Stevedore.Document

open Toml (Value)

/-! ## Plain values -/

def string? : Value → Option String
  | .string s => some s
  | _ => none

def boolean? : Value → Option Bool
  | .boolean b => some b
  | _ => none

def list? {α : Type} (item? : Value → Option α) : Value → Option (List α)
  | .array items => items.mapM item?
  | _ => none

/-- The entries of a table, and a date as the one entry that it counts as. -/
def entries? : Value → Option (List (String × Value))
  | .table entries => some entries
  | .dateTime d => some [("$__toml_private_datetime", .string d.text)]
  | _ => none

/-- Reads a table of any keys. -/
def mapOf? {α : Type} (item? : Value → Option α) (v : Value) : Option (NameMap α) := do
  let read ← (← entries? v).mapM fun (k, v) => (item? v).map fun a => (k, a)
  return SortedMap.ofList read

/-! ## Records -/

/-- The fields of a table, if the numbers of all others fit. -/
def known? (names : List String) (entries : List (String × Value)) :
    Option (List (String × Value)) :=
  let (fields, others) := entries.partition fun (k, _) => names.contains k
  if Toml.entriesFit .wide others then some fields else none

/-- The fields of a record, given the names of its fields in order. -/
def record? (names : List String) : Value → Option (List (String × Value))
  | .array items => some (names.zip items)
  | v => (entries? v).bind (known? names)

/-- Reads a field that must be there. -/
def required? {α : Type} (fields : List (String × Value)) (name : String)
    (read? : Value → Option α) : Option α :=
  (fields.lookup name).bind read?

/-- Reads a field that has a value of its own when it is missing. -/
def defaulted? {α : Type} (fields : List (String × Value)) (name : String) (missing : α)
    (read? : Value → Option α) : Option α :=
  match fields.lookup name with
  | none => some missing
  | some v => read? v

/-- Reads a field that may be missing. -/
def optional? {α : Type} (fields : List (String × Value)) (name : String)
    (read? : Value → Option α) : Option (Option α) :=
  defaulted? fields name none fun v => (read? v).map some

/-! ## The parts of a project -/

/-- A kind of cache: its name, or a table with its name bound to nothing. -/
def cacheKind? : Value → Option CacheKind
  | .string "volume" => some .volume
  | .string "directory" => some .directory
  | .table [(name, .table [])] => named? name
  | .table [(name, .array [])] => named? name
  | _ => none
where
  named? : String → Option CacheKind
    | "volume" => some .volume
    | "directory" => some .directory
    | _ => none

def path? (v : Value) : Option Path := (string? v).map Path.mk

/-- What a volume says besides its kind: in a table all but the field `type`, and in an array all
items after the first, which is the kind. It is put aside until the kind is known. -/
def volumeParts? : Value → Option (String × Value)
  | .table entries => do
    let kind ← required? entries "type" string?
    return (kind, .table (entries.filter fun (k, _) => k != "type"))
  | .array (kind :: items) => (string? kind).map fun kind => (kind, .array items)
  | _ => none

/-- The fields of a kind of volume. -/
def volumeFields? : String → Option (List String)
  | "local" => some ["local", "container_path", "options"]
  | "cache" => some ["name", "container_path"]
  | _ => none

/-- Reads a volume. In an array nothing may follow the last field. -/
def volume? (v : Value) : Option VolumeSettings := do
  let (kind, rest) ← volumeParts? v
  let names ← volumeFields? kind
  let fields ←
    match rest with
    | .array items => if items.length ≤ names.length then record? names rest else none
    | rest => record? names rest
  if !rest.fits .narrow then none
  else if kind = "local" then
    return .host (← required? fields "local" path?) (← required? fields "container_path" string?)
      (← optional? fields "options" string?)
  else
    return .cache (← required? fields "name" string?) (← required? fields "container_path" string?)

def setupCommand? (v : Value) : Option SetupCommand := do
  let fields ← record? ["command", "working_directory"] v
  return {
    command := ← required? fields "command" string?
    workingDirectory := ← optional? fields "working_directory" string? }

def user? (v : Value) : Option UserSettings := do
  let fields ← record? ["enabled", "home_directory"] v
  return {
    enabled := ← defaulted? fields "enabled" false boolean?
    homeDirectory := ← optional? fields "home_directory" string? }

def container? (v : Value) : Option ContainerSettings := do
  let fields ← record?
    ["image", "build_directory", "dockerfile", "build_args", "command", "environment",
     "working_directory", "dependencies", "volumes", "setup_commands", "run_as_current_user"] v
  return {
    image := ← optional? fields "image" string?
    buildDirectory := ← optional? fields "build_directory" path?
    dockerfile := ← defaulted? fields "dockerfile" "Dockerfile" string?
    buildArgs := ← defaulted? fields "build_args" ∅ (mapOf? string?)
    command := ← optional? fields "command" string?
    environment := ← defaulted? fields "environment" ∅ (mapOf? string?)
    workingDirectory := ← optional? fields "working_directory" string?
    dependencies := ← defaulted? fields "dependencies" [] (list? string?)
    volumes := ← defaulted? fields "volumes" [] (list? volume?)
    setupCommands := ← defaulted? fields "setup_commands" [] (list? setupCommand?)
    runAsCurrentUser := ← defaulted? fields "run_as_current_user" {} user? }

def run? (v : Value) : Option RunSettings := do
  let fields ← record? ["container", "command", "environment"] v
  return {
    container := ← required? fields "container" string?
    command := ← optional? fields "command" string?
    environment := ← defaulted? fields "environment" ∅ (mapOf? string?) }

def task? (v : Value) : Option TaskSettings := do
  let fields ← record? ["description", "run", "prerequisites", "dependencies"] v
  return {
    description := ← optional? fields "description" string?
    run := ← optional? fields "run" run?
    prerequisites := ← defaulted? fields "prerequisites" [] (list? string?)
    dependencies := ← defaulted? fields "dependencies" [] (list? string?) }

/-- The settings that apply to all containers. -/
def cacheSection? (v : Value) : Option CacheKind := do
  let fields ← record? ["cache_type"] v
  defaulted? fields "cache_type" .volume cacheKind?

/-- The settings that the entries of a document stand for. -/
def ofEntries? (entries : List (String × Value)) : Option ProjectSettings := do
  let fields ← known? ["project_name", "config", "containers", "tasks"] entries
  return {
    projectName := ← required? fields "project_name" string?
    cacheKind := ← defaulted? fields "config" .volume cacheSection?
    containers := ← defaulted? fields "containers" ∅ (mapOf? container?)
    tasks := ← defaulted? fields "tasks" ∅ (mapOf? task?) }

/-- The settings in a document, or nothing if it is malformed. -/
def settings? (text : String) : Option ProjectSettings :=
  (Toml.document? text).bind ofEntries?

end Stevedore.Document
