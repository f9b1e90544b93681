import Inventory.SortedMap
import Inventory.Toml.Basic

/-! Reading records, lists and maps out of TOML values. A record is a table, whose unknown keys are
passed over, or an array of its fields in order. -/
namespace Inventory.Toml

def string? : Toml → Option String
  | string value => some value
  | _ => none

def natBelow? (bound : Nat) : Toml → Option Nat
  | integer value => if 0 ≤ value && value < bound then some value.toNat else none
  | _ => none

def list? (read : Toml → Option α) : Toml → Option (List α)
  | array items => items.mapM read
  | _ => none

/-- The name under which a date presents itself where a table is wanted. -/
def datetimeKey : String := "$__toml_private_datetime"

def map? (read : Toml → Option α) : Toml → Option (SortedMap α)
  | table entries => do return .ofList (← entries.mapM fun e => (read e.2).map (e.1, ·))
  | datetime text => (read (.string text)).map fun value => .ofList [(datetimeKey, value)]
  | _ => none

/-- A name from a closed list, alone or as the one key of a table that gives it nothing. -/
def name? : Toml → Option String
  | string value => some value
  | table [(name, table [])] => some name
  | table [(name, array [])] => some name
  | _ => none

/-- Each known field of a record with its value, if there is one. -/
structure Fields where
  found : List (String × Option Toml)
  /-- The record was written as an array. -/
  positional : Bool

def fields? (names : List String) : Toml → Option Fields
  | table entries =>
    some ⟨names.map fun name => (name, (entries.find? (·.1 == name)).map (·.2)), false⟩
  | array items => some ⟨names.zipIdx.map fun (name, i) => (name, items[i]?), true⟩
  | datetime _ => some ⟨names.map (·, none), false⟩
  | _ => none

namespace Fields

def get? (f : Fields) (name : String) : Option Toml := (f.found.find? (·.1 == name)).bind (·.2)

def required (f : Fields) (name : String) (read : Toml → Option α) : Option α :=
  (f.get? name).bind read

/-- A table may leave the field out, an array may not. -/
def optional (f : Fields) (name : String) (read : Toml → Option α) : Option (Option α) :=
  match f.get? name with
  | some value => (read value).map some
  | none => if f.positional then none else some none

def defaulted (f : Fields) (name : String) (read : Toml → Option α) (default : α) : Option α :=
  match f.get? name with
  | some value => read value
  | none => some default

end Fields

end Inventory.Toml
