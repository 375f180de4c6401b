import Stevedore.Toml.DateTime

/-!
Values of a TOML document and the tables it builds.

While a document is read its tables remember how they came to be (`Origin`), because a table may be
named by one header only and dotted keys may not reach into a table that a header wrote. A finished
document is a plain `Value`.
-/

namespace Stevedore.Toml

/-- A value of a document. -/
inductive Value where
  | string (text : String)
  | integer (value : Int)
  /-- A float as it is written. -/
  | float (text : String)
  | boolean (value : Bool)
  | dateTime (value : DateTime)
  | array (items : List Value)
  | table (entries : List (String × Value))
deriving Inhabited

/-! ## Tables under construction -/

/-- How a table came to be. -/
inductive Origin where
  /-- By the name of a table below it. -/
  | implied
  /-- By a dotted key. -/
  | dotted
  /-- By a header of its own. -/
  | declared
deriving DecidableEq, Repr

/-- What a key stands for while the document is read. -/
inductive Node where
  | leaf (value : Value)
  | table (origin : Origin) (entries : List (String × Node))
  /-- Tables that share a header in double brackets, the latest first. -/
  | tables (items : List (List (String × Node)))
deriving Inhabited

/-- The entries of a table, in the order they were written. -/
abbrev Entries := List (String × Node)

namespace Entries

/-- Changes what `key` stands for. A key that is not there is added at the end. -/
def alter (key : String) (f : Option Node → Option Node) : Entries → Option Entries
  | [] => (f none).map fun n => [(key, n)]
  | (k, n) :: rest =>
    if k = key then (f (some n)).map fun n' => (k, n') :: rest
    else (alter key f rest).map ((k, n) :: ·)

/-- Changes the table that a header's leading keys lead to, and makes the tables on the way. The
way goes through the latest of several tables with one header. -/
def alterBelow (f : Entries → Option Entries) : List String → Entries → Option Entries
  | [], entries => f entries
  | key :: path, entries =>
    alter key
      (fun
        | none => (alterBelow f path []).map (Node.table .implied)
        | some (.table origin below) => (alterBelow f path below).map (Node.table origin)
        | some (.tables (latest :: earlier)) =>
          (alterBelow f path latest).map fun t => Node.tables (t :: earlier)
        | some _ => none)
      entries

/-- The table that a single header names. A table that was only implied may still be declared. -/
def declare (key : String) : Entries → Option Entries :=
  alter key fun
    | none => some (.table .declared [])
    | some (.table .implied below) => some (.table .declared below)
    | some _ => none

/-- A further table under a header in double brackets. -/
def declareNext (key : String) : Entries → Option Entries :=
  alter key fun
    | none => some (.tables [[]])
    | some (.tables items) => some (.tables ([] :: items))
    | some _ => none

/-- Binds a key to a value. The key must be new. -/
def bind (key : String) (value : Value) : Entries → Option Entries :=
  alter key fun
    | none => some (.leaf value)
    | some _ => none

/-- Binds a dotted key to a value. The keys before the last name tables that dotted keys made;
a table that a header declared is closed to them. -/
def bindDotted (key : String) (value : Value) : List String → Bool → Entries → Option Entries
  | [], open?, entries => if open? then bind key value entries else none
  | first :: path, _, entries =>
    alter first
      (fun
        | none => (bindDotted key value path true []).map (Node.table .dotted)
        | some (.table .declared _) => none
        | some (.table origin below) =>
          (bindDotted key value path (origin = .dotted) below).map (Node.table origin)
        | some (.tables (latest :: earlier)) =>
          (bindDotted key value path false latest).map fun t => Node.tables (t :: earlier)
        | some _ => none)
      entries

end Entries

mutual

/-- The finished value of a node. -/
def Node.value : Node → Value
  | .leaf v => v
  | .table _ entries => .table (entryValues entries)
  | .tables items => .array (tableValues items).reverse

/-- The finished entries of a table. -/
def entryValues : List (String × Node) → List (String × Value)
  | [] => []
  | (k, n) :: rest => (k, n.value) :: entryValues rest

/-- The finished tables under one header. -/
def tableValues : List (List (String × Node)) → List Value
  | [] => []
  | t :: rest => .table (entryValues t) :: tableValues rest

end

end Stevedore.Toml
