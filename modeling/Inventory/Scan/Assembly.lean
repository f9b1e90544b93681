import Inventory.Recorder.Views
import Inventory.Scan.Arguments
import Inventory.Scan.Location
import Inventory.Scan.Result
import Inventory.Wildcard

/-! Putting the result of a scan together from what the detectors wrote. Components are merged by id
across detectors, graphs by location, and ignored ids are left out of both. -/
namespace Inventory

/-- What one detector wrote. -/
structure Contribution where
  detector : String
  recorder : Recorder
  deriving DecidableEq, Repr

def ScanArguments.ignores (a : ScanArguments) (id : String) : Bool :=
  Wildcard.matchesAny a.ignored id

/-- A component as a result gives it. -/
def Detected.located (source detector : String) (d : Detected) : Detected :=
  { d with
    filePaths := .ofList (d.filePaths.toList.map (relativeLocation source))
    detectorIds := d.detectorIds.add detector }

namespace Contribution

/-- The components of one detector for the result. -/
def detected (a : ScanArguments) (c : Contribution) : List Detected :=
  (c.recorder.detected.filter (!a.ignores ·.id)).map (·.located a.source c.detector)

end Contribution

namespace GraphSummary

/-- Takes up one node of a graph. -/
def addNode (ignored : String → Bool) (graph : Graph) (s : GraphSummary) (id : String) :
    GraphSummary :=
  let children := ((graph.children? id).getD .empty).filterKeys (!ignored ·)
  { edges := s.edges.upsert id fun old => (old.getD .empty).union children
    explicit := if graph.isExplicit id then s.explicit.add id else s.explicit
    development :=
      if graph.development? id = some true then s.development.add id else s.development }

/-- Takes up all nodes of a graph that are not ignored. -/
def addGraph (ignored : String → Bool) (s : GraphSummary) (graph : Graph) : GraphSummary :=
  (graph.ids.filter (!ignored ·)).foldl (addNode ignored graph) s

end GraphSummary

/-- Files a graph under its location. -/
def fileGraph (a : ScanArguments) (graphs : SortedMap GraphSummary) (entry : String × Graph) :
    SortedMap GraphSummary :=
  graphs.upsert (relativeLocation a.source entry.1) fun old =>
    (old.getD {}).addGraph a.ignores entry.2

def summarizeGraphs (a : ScanArguments) (contributions : List Contribution) :
    SortedMap GraphSummary :=
  (contributions.flatMap (·.recorder.graphs)).foldl (fileGraph a) .empty

/-- The result of a scan, without the detectors that were kept out of it. -/
def assemble (a : ScanArguments) (correlationId : String) (time : Instant) (outcome : Outcome)
    (detectors : List DetectorInfo) (contributions : List Contribution) : ScanResult where
  correlationId := correlationId
  time := time
  source := a.source
  outcome := outcome
  components := Detected.mergeAll a.rule (contributions.flatMap (·.detected a))
  detectors := detectors
  disabled := []
  graphs := summarizeGraphs a contributions

end Inventory
