import Inventory.Duration
import Inventory.Report.Grid
import Inventory.SortedMap

/-! The table of how long the detectors of a scan took. -/
namespace Inventory.Report

structure Timing where
  duration : Duration
  components : Nat
  explicit : Nat
  deriving DecidableEq, Repr

def Timing.row (label : String) (t : Timing) : List String :=
  [label, t.duration.text, toString t.components, toString t.explicit]

/-- The last row has the length of the whole scan and the sums of the counts. -/
def timingTable (timings : SortedMap Timing) (total : Duration) : String :=
  let sum : Timing := timings.values.foldl (fun (sum : Timing) t =>
    { sum with components := sum.components + t.components, explicit := sum.explicit + t.explicit })
    (Timing.mk total 0 0)
  grid ["Component Detector Id", "Detection Time", "# Components Found", "# Explicitly Referenced"]
    (timings.entries.map (fun e => e.2.row e.1) ++ [sum.row "Total"])

end Inventory.Report
