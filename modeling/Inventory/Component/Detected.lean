import Inventory.Component.Collection
import Inventory.Component.Scope
import Inventory.Component.Development

/-! Components as detectors observe them. -/
namespace Inventory

structure Detected where
  component : Component
  filePaths : StringSet := .empty
  /-- The explicitly referenced components that brought this one in. -/
  roots : ComponentSet := .empty
  development : Option Bool := none
  scope : Option Scope := none
  explicit : Bool := false
  frameworks : StringSet := .empty
  detectorIds : StringSet := .empty
  metadata : SortedMap String := .empty
  deriving DecidableEq, Repr

namespace Detected

def id (d : Detected) : String := d.component.id

/-- Takes up another observation of the same component. Sets are united, of two values for one root
or one metadata key the first is kept, and so is the component itself. -/
def merge (rule : DevelopmentRule) (a b : Detected) : Detected where
  component := a.component
  filePaths := StringSet.union a.filePaths b.filePaths
  roots := a.roots.union b.roots
  development := rule.merge a.development b.development
  scope := Scope.merge a.scope b.scope
  explicit := a.explicit || b.explicit
  frameworks := StringSet.union a.frameworks b.frameworks
  detectorIds := StringSet.union a.detectorIds b.detectorIds
  metadata := a.metadata.unionNew b.metadata

/-- Files an observation under its id, merged with the one that is there. -/
def file (rule : DevelopmentRule) (merged : SortedMap Detected) (d : Detected) :
    SortedMap Detected :=
  merged.upsert d.id fun
    | none => d
    | some old => old.merge rule d

/-- One observation for each id, in the order of ids. -/
def mergeAll (rule : DevelopmentRule) (ds : List Detected) : List Detected :=
  (ds.foldl (file rule) .empty).values

end Detected

end Inventory
