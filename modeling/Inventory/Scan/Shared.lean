import Inventory.Scan.Execution
import Inventory.Shared

/-! The detectors of a scan at work at once. The record of a detector is posted at the end of its
run, and the scan waits for all of them before it goes on. -/
namespace Inventory.Scan

/-- The runs that have ended, the first to end first. Each has the place of its detector. -/
abbrev Ended := List (Nat × DetectorRun)

inductive Task where
  | detect (place : Nat) (d : Detector)
  | done

namespace Task

def step (world : FileTree.World) (a : ScanArguments) (ended : Ended) : Task → Ended × Task
  | detect place d => (ended ++ [(place, d.execute world a a.restrictions)], done)
  | done => (ended, done)

def isDone : Task → Bool
  | done => true
  | detect .. => false

end Task

/-- Detectors of which none has run. -/
def detecting (detectors : List Detector) : Shared Ended Task :=
  ⟨[], detectors.zipIdx.map fun (d, place) => .detect place d⟩

/-- The runs in the order of their detectors. -/
def inPlace (count : Nat) (ended : Ended) : List DetectorRun :=
  (List.range count).filterMap (ended.lookup ·)

/-- The scan, if all its detectors have run by the end of this schedule. -/
def atOnce? (world : FileTree.World) (registry : List Detector) (a : ScanArguments) (o : Occasion)
    (schedule : List Nat) : Option Scan :=
  match a.restrictions.apply registry with
  | .error e => some (.refused a e)
  | .ok detectors =>
    let work := (detecting detectors).execute (Task.step world a) schedule
    if work.tasks.all Task.isDone then
      some (.completed registry detectors a o (inPlace detectors.length work.state)
        (work.state.map (·.2)))
    else none

end Inventory.Scan
