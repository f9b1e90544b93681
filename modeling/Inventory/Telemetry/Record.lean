import Inventory.Detector.Basic
import Inventory.Json.Basic

/-! Records of what a scan did, for whoever watches scans. -/
namespace Inventory.Telemetry

/-- One run of a detector. -/
structure DetectorRecord where
  detector : String
  experimental : Bool
  components : Nat := 0
  explicit : Nat := 0
  outcome : Outcome := .success
  milliseconds : Nat := 0
  details : Details := .empty
  /-- Why an experimental detector failed. -/
  failure : Option String := none
  deriving DecidableEq, Repr

/-- A whole scan. -/
structure ScanRecord where
  command : String
  source : String
  detectors : List String := []
  outcome : Option Outcome := none
  components : Nat := 0
  error : Option String := none
  milliseconds : Nat := 0
  deriving DecidableEq, Repr

inductive Record where
  | detector (r : DetectorRecord)
  | scan (r : ScanRecord)
  /-- A record of some other kind. -/
  | other (name : String) (payload : Json)
  deriving Repr, BEq

def detailsJson (details : Details) : Json := .object (details.map Json.string).entries

/-- The members are in the order of their names. -/
def DetectorRecord.payload (r : DetectorRecord) : Json :=
  .objectOf [
    ("additionalTelemetryDetails", some (detailsJson r.details)),
    ("detectedComponentCount", some (.nat r.components)),
    ("detectorId", some (.string r.detector)),
    ("executionTimeMs", some (.nat r.milliseconds)),
    ("experimentalInformation", r.failure.map .string),
    ("explicitlyReferencedComponentCount", some (.nat r.explicit)),
    ("isExperimental", some (.bool r.experimental)),
    ("returnCode", some (.string r.outcome.label))]

/-- The members are in the order of their names. -/
def ScanRecord.payload (r : ScanRecord) : Json :=
  .objectOf [
    ("command", some (.string r.command)),
    ("componentCount", some (.nat r.components)),
    ("detectorsRun", some (.strings r.detectors)),
    ("errorMessage", r.error.map .string),
    ("executionTimeMs", some (.nat r.milliseconds)),
    ("resultCode", r.outcome.map fun o => .string o.label),
    ("sourceDirectory", some (.string r.source))]

namespace Record

def name : Record → String
  | detector _ => "DetectorExecution"
  | scan _ => "ScanExecution"
  | other name _ => name

def payload : Record → Json
  | detector r => r.payload
  | scan r => r.payload
  | other _ payload => payload

/-- Sets the length of what the record is about, in whole milliseconds. -/
def stamp (microseconds : Nat) : Record → Record
  | detector r => detector { r with milliseconds := microseconds / 1000 }
  | scan r => scan { r with milliseconds := microseconds / 1000 }
  | r => r

end Record

end Inventory.Telemetry
