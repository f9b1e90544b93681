import Inventory.Component.Ecosystem
import Inventory.Text.Blank
import Inventory.Text.Lowercase

/-! One package in one ecosystem. Its identity fields make its id; whatever else is known of it does
not. Identity fields of a component that was checked are not blank. -/
namespace Inventory

inductive Component where
  | npm (name version : String) (hash : Option String)
  | nuGet (name version : String)
  | pip (name version : String) (author license : Option String)
  | go (name version : String) (hash : Option String)
  | cargo (name version : String) (source : Option String)
  | maven (group artifact version : String)
  | rubyGems (name version : String)
  | other (name version downloadUrl : String)
  deriving DecidableEq, Repr

namespace Component

inductive Field where
  | name
  | version
  | group
  | artifact
  | downloadUrl
  deriving DecidableEq, Repr

def Field.label : Field → String
  | name => "name"
  | version => "version"
  | group => "groupId"
  | artifact => "artifactId"
  | downloadUrl => "downloadUrl"

def ecosystem : Component → Ecosystem
  | npm .. => .npm
  | nuGet .. => .nuGet
  | pip .. => .pip
  | go .. => .go
  | cargo .. => .cargo
  | maven .. => .maven
  | rubyGems .. => .rubyGems
  | other .. => .other

def identity : Component → List (Field × String)
  | npm name version _ | nuGet name version | pip name version _ _ | go name version _
  | cargo name version _ | rubyGems name version => [(.name, name), (.version, version)]
  | maven group artifact version => [(.group, group), (.artifact, artifact), (.version, version)]
  | other name version url => [(.name, name), (.version, version), (.downloadUrl, url)]

/-- A field that identifies components of an ecosystem was blank. -/
structure MissingField where
  field : Field
  ecosystem : Ecosystem
  deriving DecidableEq, Repr

def MissingField.message (e : MissingField) : String :=
  "property " ++ e.field.label ++ " of component type " ++ e.ecosystem.label ++ " is required"

/-- The component itself, unless one of its identity fields is blank. -/
def checked (c : Component) : Except MissingField Component :=
  match c.identity.find? fun f => Text.isBlank f.2 with
  | some (field, _) => .error ⟨field, c.ecosystem⟩
  | none => .ok c

/-- The identity fields and the ecosystem in one text. Pip ids are in lower case, since names are
compared without case there. -/
def id (c : Component) : String :=
  let text := " ".intercalate (c.identity.map (·.2)) ++ " - " ++ c.ecosystem.label
  match c with
  | pip .. => Text.lowercase text
  | _ => text

/-- The package URL. A Go module is known by its commit hash rather than its version. -/
def packageUrl : Component → String
  | npm name version _ => "pkg:npm/" ++ name ++ "@" ++ version
  | nuGet name version => "pkg:nuget/" ++ name ++ "@" ++ version
  | pip name version _ _ => "pkg:pypi/" ++ name ++ "@" ++ version
  | go name version hash => "pkg:golang/" ++ name ++ "@" ++ hash.getD version
  | cargo name version _ => "pkg:cargo/" ++ name ++ "@" ++ version
  | maven group artifact version => "pkg:maven/" ++ group ++ "/" ++ artifact ++ "@" ++ version
  | rubyGems name version => "pkg:gem/" ++ name ++ "@" ++ version
  | other name version url => "pkg:generic/" ++ name ++ "@" ++ version ++ "?download_url=" ++ url

def displayName : Component → String
  | npm name .. | nuGet name .. | pip name .. | go name .. | cargo name .. | rubyGems name ..
  | other name .. => name
  | maven group artifact _ => group ++ ":" ++ artifact

def version : Component → String
  | npm _ version _ | nuGet _ version | pip _ version _ _ | go _ version _ | cargo _ version _
  | maven _ _ version | rubyGems _ version | other _ version _ => version

end Component

end Inventory
