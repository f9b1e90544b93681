import Inventory.Component.Detected
import Inventory.Document.Component

/-! The JSON form of detected components. What is unknown or empty is left out, except for the paths
and the roots. -/
namespace Inventory.Detected

def nonempty (m : SortedMap α) (json : Json) : Option Json := if m.isEmpty then none else some json

def metadataJson (m : SortedMap String) : Json := .object (m.map Json.string).entries

def members (d : Detected) : List (String × Option Json) := [
  ("component", some d.component.toJson),
  ("filePaths", some (.strings d.filePaths.toList)),
  ("dependencyRoots", some (.array (d.roots.toList.map Component.toJson))),
  ("developmentDependency", d.development.map .bool),
  ("dependencyScope", d.scope.map fun s => .string s.label),
  ("isExplicitReferencedDependency", some (.bool d.explicit)),
  ("targetFrameworks", nonempty d.frameworks (.strings d.frameworks.toList)),
  ("detectorIds", nonempty d.detectorIds (.strings d.detectorIds.toList)),
  ("additionalMetadata", nonempty d.metadata (metadataJson d.metadata))]

def toJson (d : Detected) : Json := .objectOf d.members

def fieldNames : List String :=
  ["component", "filePaths", "dependencyRoots", "developmentDependency", "dependencyScope",
   "isExplicitReferencedDependency", "targetFrameworks", "detectorIds", "additionalMetadata"]

def scope? (value : Json) : Option Scope := value.name?.bind Scope.ofLabel?

/-- Reads a detected component that stands `depth` arrays and objects deep. -/
def ofJson? (depth : Nat) (value : Json) : Option Detected := do
  let f ← value.fields? fieldNames
  let root := Component.ofJson? (depth + 2)
  return {
    component := ← f.required "component" (Component.ofJson? (depth + 1))
    filePaths := ← f.defaulted "filePaths" Json.stringSet? .empty
    roots := .ofList (← f.defaulted "dependencyRoots" (Json.list? root) [])
    development := ← f.optional "developmentDependency" Json.bool?
    scope := ← f.optional "dependencyScope" scope?
    explicit := ← f.defaulted "isExplicitReferencedDependency" Json.bool? false
    frameworks := ← f.defaulted "targetFrameworks" Json.stringSet? .empty
    detectorIds := ← f.defaulted "detectorIds" Json.stringSet? .empty
    metadata := ← f.defaulted "additionalMetadata" (Json.map? Json.string?) .empty }

end Inventory.Detected
