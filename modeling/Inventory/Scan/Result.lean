import Inventory.Component.Detected
import Inventory.Detector.Basic
import Inventory.Instant

/-! The result of a scan. -/
namespace Inventory

/-- The dependency graph of one location as a result holds it. -/
structure GraphSummary where
  /-- Each id with the ids of what it depends on directly. -/
  edges : SortedMap StringSet := .empty
  explicit : StringSet := .empty
  development : StringSet := .empty
  deriving DecidableEq, Repr

structure ScanResult where
  correlationId : String
  time : Instant
  source : String
  outcome : Outcome
  components : List Detected
  detectors : List DetectorInfo
  /-- Detectors that were kept out of the scan. -/
  disabled : List DetectorInfo
  /-- By location relative to the source. -/
  graphs : SortedMap GraphSummary
  deriving DecidableEq, Repr

namespace ScanResult

def explicitCount (r : ScanResult) : Nat := r.components.countP (·.explicit)
def developmentCount (r : ScanResult) : Nat := r.components.countP (·.development == some true)

/-- The ecosystems that have components, and how many they have. -/
def ecosystemCounts (r : ScanResult) : List (Ecosystem × Nat) :=
  let counts := Ecosystem.all.map fun e => (e, r.components.countP (·.component.ecosystem == e))
  counts.filter (·.2 != 0)

end ScanResult

end Inventory
