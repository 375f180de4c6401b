import Stevedore.Json.Value
import Stevedore.Text.Digit

/-!
Reading known things out of JSON values. A record is an object, with its fields by name, or an
array, with its fields in their order; fields that nobody asks for are passed over in the first form
and refused in the second.
-/

namespace Stevedore.Json.Value

/-- What is bound to a name, if it is bound once or not at all. -/
def field? (entries : List (String × Value)) (name : String) : Option (Option Value) :=
  match entries.filter (·.1 = name) with
  | [] => some none
  | [(_, v)] => some (some v)
  | _ => none

/-- The fields of a record, each perhaps missing, in the order of `names`. -/
def record? (names : List String) : Value → Option (List (Option Value))
  | object entries => do
    let entries ← entries.mapM fun (name, v) => name.map fun n => (n, v)
    names.mapM (field? entries)
  | array items =>
    if items.length ≤ names.length then
      some (items.map some ++ List.replicate (names.length - items.length) none)
    else none
  | _ => none

/-- A field read by `item?`, or `missing`. -/
def fieldOr {α : Type} (item? : Value → Option α) (missing : α) : Option Value → Option α
  | none => some missing
  | some v => item? v

/-- A value that may be null. -/
def nullable? {α : Type} (item? : Value → Option α) : Value → Option (Option α)
  | null => some none
  | v => (item? v).map some

/-- A text. -/
def string? : Value → Option String
  | text t => t
  | _ => none

/-- A list. -/
def list? {α : Type} (item? : Value → Option α) : Value → Option (List α)
  | array items => items.mapM item?
  | _ => none

/-- A whole number of 64 bits. A zero has no sign. -/
def integer? : Value → Option Int
  | number literal => if literal = "-0" then none else Text.readInt64? literal.toList
  | _ => none

end Stevedore.Json.Value
