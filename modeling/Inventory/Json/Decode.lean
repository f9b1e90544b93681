import Inventory.Json.Basic
import Inventory.SortedMap

/-! Reading records, lists and maps out of JSON values. A record is an object, whose unknown
members are passed over and whose known ones stand at most once, or an array of its fields in
order. -/
namespace Inventory.Json

def string? : Json → Option String
  | string value => some value
  | _ => none

def bool? : Json → Option Bool
  | bool value => some value
  | _ => none

def natBelow? (bound : Nat) : Json → Option Nat
  | int value => if 0 ≤ value && value < bound then some value.toNat else none
  | _ => none

/-- A name from a closed list, alone or as the one name of an object that gives it nothing. -/
def name? : Json → Option String
  | string value => some value
  | object [(name, null)] => some name
  | _ => none

def optional? (read : Json → Option α) : Json → Option (Option α)
  | null => some none
  | value => (read value).map some

def list? (read : Json → Option α) : Json → Option (List α)
  | array items => items.mapM read
  | _ => none

/-- Of two members with one name the last counts. -/
def map? (read : Json → Option α) : Json → Option (SortedMap α)
  | object members => do
    let entries ← members.mapM fun m => (read m.2).map (m.1, ·)
    return .ofList entries
  | _ => none

def stringSet? (value : Json) : Option StringSet := (list? string? value).map StringSet.ofList

/-- The fields of a record as found. -/
structure Fields where
  /-- Each known name with its value, if there is one. -/
  found : List (String × Option Json)
  /-- The record was written as an array. -/
  positional : Bool

def fields? (names : List String) : Json → Option Fields
  | object members =>
    if names.all fun name => (members.filter (·.1 == name)).length ≤ 1 then
      some ⟨names.map fun name => (name, (members.find? (·.1 == name)).map (·.2)), false⟩
    else none
  | array items =>
    if items.length ≤ names.length then
      some ⟨names.zipIdx.map fun (name, i) => (name, items[i]?), true⟩
    else none
  | _ => none

namespace Fields

def get? (f : Fields) (name : String) : Option Json :=
  (f.found.find? (·.1 == name)).bind (·.2)

def required (f : Fields) (name : String) (read : Json → Option α) : Option α :=
  (f.get? name).bind read

/-- A field that may be null. An object may leave it out, an array may not. -/
def optional (f : Fields) (name : String) (read : Json → Option α) : Option (Option α) :=
  match f.get? name with
  | some value => optional? read value
  | none => if f.positional then none else some none

/-- A field that may be left out but is never null. -/
def defaulted (f : Fields) (name : String) (read : Json → Option α) (default : α) : Option α :=
  match f.get? name with
  | some value => read value
  | none => some default

end Fields

end Inventory.Json
