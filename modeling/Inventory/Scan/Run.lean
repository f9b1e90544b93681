import Inventory.Recorder.Views
import Inventory.Scan.Restriction
import Inventory.Telemetry.Record

/-! The run of one detector in a scan. Whatever goes wrong in it is the outcome of this
run alone. -/
namespace Inventory

namespace Ending

/-- Why a run failed. -/
def failure? : Ending → Option String
  | finished .. | hanging => none
  | failed texts => some (Text.join ": " texts)
  | panicked (some message) => some ("detector panicked: " ++ message)
  | panicked none => some "detector panicked"

/-- A run that never ends is broken off when its time is over. -/
def outcome : Ending → Outcome
  | finished outcome _ => outcome
  | failed _ | panicked _ => .inputError
  | hanging => .timeoutError

def details : Ending → Details
  | finished _ details => details
  | _ => .empty

end Ending

structure DetectorRun where
  detector : Detector
  /-- The detector ran on trial. -/
  onTrial : Bool
  ending : Ending
  /-- What the detector wrote. -/
  written : Recorder

namespace DetectorRun

def outcome (r : DetectorRun) : Outcome := r.ending.outcome

/-- A failed run contributes nothing and counts nothing, unless it was on trial. -/
def discarded (r : DetectorRun) : Bool := r.ending.failure?.isSome && !r.onTrial

/-- What the run adds to the result. -/
def contribution (r : DetectorRun) : Recorder :=
  if r.onTrial || r.discarded then {} else r.written

def componentCount (r : DetectorRun) : Nat := if r.discarded then 0 else r.written.detected.length
def explicitCount (r : DetectorRun) : Nat := if r.discarded then 0 else r.written.explicitIds.size
def info (r : DetectorRun) : DetectorInfo := r.detector.info r.onTrial

/-- The name of the run among the runs of a scan. -/
def label (r : DetectorRun) : String :=
  if r.onTrial then r.detector.id ++ " (Beta)" else r.detector.id

/-- The failure of a stable detector is one of its details. -/
def record (r : DetectorRun) : Telemetry.DetectorRecord :=
  let stableFailure := if r.onTrial then none else r.ending.failure?
  { detector := r.detector.id
    experimental := r.onTrial
    components := r.componentCount
    explicit := r.explicitCount
    outcome := r.outcome
    details := (SortedMap.ofList (stableFailure.toList.map ("error", ·))).union r.ending.details
    failure := if r.onTrial then r.ending.failure? else none }

end DetectorRun

def ScanArguments.request (a : ScanArguments) : Request where
  source := a.source
  exclusion := a.exclusion
  arguments := a.detectorArguments
  maxThreads := a.maxThreads

/-- Runs a detector with a recorder of its own. -/
def Detector.execute (world : FileTree.World) (a : ScanArguments) (r : Restrictions)
    (d : Detector) : DetectorRun :=
  let (written, ending) := d.run world a.request (d.newRecorder a.rule)
  { detector := d, onTrial := r.onTrial d, ending, written }

/-- The runs of all detectors of a scan, in their order. -/
def runDetectors (world : FileTree.World) (a : ScanArguments) (r : Restrictions)
    (detectors : List Detector) : List DetectorRun :=
  detectors.map (·.execute world a r)

/-- The worst outcome of a detector that did not run on trial. -/
def overallOutcome (runs : List DetectorRun) : Outcome :=
  .worst ((runs.filter (!·.onTrial)).map (·.outcome))

/-- The runs by name. -/
def runsByLabel (runs : List DetectorRun) : SortedMap DetectorRun :=
  .ofList (runs.map fun r => (r.label, r))

end Inventory
