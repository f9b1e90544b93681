import Inventory.Scan.Assembly
import Inventory.Scan.Run

/-! A whole scan: choosing the detectors, running them and putting the result together. -/
namespace Inventory

/-- When and under what name a scan takes place. -/
structure Occasion where
  correlationId : String
  time : Instant
  deriving Repr

def DetectorRun.contributed (r : DetectorRun) : Contribution := ⟨r.detector.id, r.contribution⟩

/-- The result of a scan with these runs. -/
def assembleRuns (a : ScanArguments) (o : Occasion) (runs : List DetectorRun) : ScanResult :=
  assemble a o.correlationId o.time (overallOutcome runs) (runs.map (·.info))
    (runs.map (·.contributed))

/-- The detectors of the registry that are not among those that run. -/
def disabledDetectors (registry running : List Detector) : List DetectorInfo :=
  (registry.filter fun d => !running.any (·.id == d.id)).map fun d => d.info d.experimental

structure Scan where
  result : Except Error ScanResult
  /-- The telemetry of the scan. -/
  records : List Telemetry.Record

namespace Scan

def begun (a : ScanArguments) : Telemetry.ScanRecord := { command := "scan", source := a.source }

/-- A scan whose restrictions name a detector that is not there or leave none. -/
def refused (a : ScanArguments) (e : Error) : Scan :=
  ⟨.error e, [.scan { begun a with error := some e.message }]⟩

/-- A scan whose detectors have all run. The runs are in the order of the detectors, and then in the
order in which they ended. -/
def completed (registry detectors : List Detector) (a : ScanArguments) (o : Occasion)
    (runs ended : List DetectorRun) : Scan :=
  let result := { assembleRuns a o runs with disabled := disabledDetectors registry detectors }
  let record := { begun a with
    detectors := detectors.map (·.id)
    outcome := some result.outcome
    components := result.components.length }
  ⟨.ok result, ended.map (fun r => .detector r.record) ++ [.scan record]⟩

end Scan

/-- No detector runs if the restrictions fail. -/
def scan (world : FileTree.World) (registry : List Detector) (a : ScanArguments) (o : Occasion) :
    Scan :=
  match a.restrictions.apply registry with
  | .error e => .refused a e
  | .ok detectors =>
    let runs := runDetectors world a a.restrictions detectors
    .completed registry detectors a o runs runs

end Inventory
