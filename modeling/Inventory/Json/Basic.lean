/-! JSON values. The members of an object keep their order and may repeat a name: which of two
members counts, or whether two are an error, is for the reader of the object to say. -/
namespace Inventory

inductive Json where
  | null
  | bool (value : Bool)
  | int (value : Int)
  /-- A number with a fraction or an exponent, as written. -/
  | decimal (literal : String)
  | string (value : String)
  | array (items : List Json)
  | object (members : List (String × Json))
  /-- What a reader may pass over but cannot use: a text with half a surrogate pair, a number
  beyond the doubles, an object with such a text for a name. -/
  | unusable
  deriving Repr, Inhabited, BEq

namespace Json

/-- Members whose value is unknown are left out. -/
def objectOf (members : List (String × Option Json)) : Json :=
  .object (members.filterMap fun m => m.2.map (m.1, ·))

def nat (n : Nat) : Json := .int n
def strings (xs : List String) : Json := .array (xs.map .string)

mutual

/-- How deep arrays and objects nest. -/
def height : Json → Nat
  | array items => heightOfItems items + 1
  | object members => heightOfMembers members + 1
  | _ => 0

def heightOfItems : List Json → Nat
  | [] => 0
  | item :: rest => max item.height (heightOfItems rest)

def heightOfMembers : List (String × Json) → Nat
  | [] => 0
  | (_, value) :: rest => max value.height (heightOfMembers rest)

end

mutual

/-- Every part of the value can be used. -/
def usable : Json → Bool
  | unusable => false
  | array items => usableItems items
  | object members => usableMembers members
  | _ => true

def usableItems : List Json → Bool
  | [] => true
  | item :: rest => item.usable && usableItems rest

def usableMembers : List (String × Json) → Bool
  | [] => true
  | (_, value) :: rest => value.usable && usableMembers rest

end

end Json

end Inventory
