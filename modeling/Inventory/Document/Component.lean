import Inventory.Component.Basic
import Inventory.Json.Decode

/-! The JSON form of components: an object whose member `type` names the ecosystem. -/
namespace Inventory.Component

/-- The deepest nesting in which a whole value is taken in before it is looked at. -/
def nestingLimit : Nat := 127

/-- What is said of a component besides its type. -/
def members (c : Component) : List (String × Option Json) :=
  let text := fun (s : String) => some (Json.string s)
  match c with
  | npm name version hash | go name version hash =>
    [("name", text name), ("version", text version), ("hash", hash.map .string)]
  | nuGet name version | rubyGems name version =>
    [("name", text name), ("version", text version)]
  | pip name version author license =>
    [("name", text name), ("version", text version), ("author", author.map .string),
     ("license", license.map .string)]
  | cargo name version source =>
    [("name", text name), ("version", text version), ("source", source.map .string)]
  | maven group artifact version =>
    [("groupId", text group), ("artifactId", text artifact), ("version", text version)]
  | other name version url =>
    [("name", text name), ("version", text version), ("downloadUrl", text url)]

def toJson (c : Component) : Json :=
  .objectOf (("type", some (.string c.ecosystem.label)) :: c.members)

/-- Takes the type off a component, given as a member or in front of an array. -/
def splitType? : Json → Option (String × Json)
  | .object members =>
    match members.filter (·.1 == "type") with
    | [(_, .string type)] => some (type, .object (members.filter (·.1 != "type")))
    | _ => none
  | .array (.string type :: items) => some (type, .array items)
  | _ => none

/-- The component that `fields` describe in an ecosystem. -/
def ofFields? (fields : Json) : Ecosystem → Option Component
  | .npm => do
    let f ← fields.fields? ["name", "version", "hash"]
    return npm (← text f "name") (← text f "version") (← note f "hash")
  | .go => do
    let f ← fields.fields? ["name", "version", "hash"]
    return go (← text f "name") (← text f "version") (← note f "hash")
  | .nuGet => do
    let f ← fields.fields? ["name", "version"]
    return nuGet (← text f "name") (← text f "version")
  | .rubyGems => do
    let f ← fields.fields? ["name", "version"]
    return rubyGems (← text f "name") (← text f "version")
  | .pip => do
    let f ← fields.fields? ["name", "version", "author", "license"]
    return pip (← text f "name") (← text f "version") (← note f "author") (← note f "license")
  | .cargo => do
    let f ← fields.fields? ["name", "version", "source"]
    return cargo (← text f "name") (← text f "version") (← note f "source")
  | .maven => do
    let f ← fields.fields? ["groupId", "artifactId", "version"]
    return maven (← text f "groupId") (← text f "artifactId") (← text f "version")
  | .other => do
    let f ← fields.fields? ["name", "version", "downloadUrl"]
    return other (← text f "name") (← text f "version") (← text f "downloadUrl")
where
  text (f : Json.Fields) (name : String) : Option String := f.required name Json.string?
  note (f : Json.Fields) (name : String) : Option (Option String) := f.optional name Json.string?

/-- Reads a component that stands `depth` arrays and objects deep. Blank fields are let through. The
whole value is taken in, since the type may come last, and so all of it must be usable. -/
def ofJson? (depth : Nat) (value : Json) : Option Component := do
  if depth + value.height > nestingLimit then none
  let (type, fields) ← splitType? value
  if fields.usable then ofFields? fields (← Ecosystem.ofLabel? type) else none

end Inventory.Component
