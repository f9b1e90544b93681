import Inventory.Report.Grid
import Inventory.Scan.Result

/-! The report of a scan for people to read. -/
namespace Inventory.Report

open Text (join)

def yesNo (b : Bool) : String := if b then "yes" else "no"

/-- A text of more than `limit` characters ends in dots. -/
def shortened (limit : Nat) (s : String) : String :=
  if s.toList.length ≤ limit then s else String.ofList (s.toList.take (limit - 3)) ++ "..."

def componentRow (d : Detected) : List String :=
  [d.component.ecosystem.label, shortened 40 d.component.displayName,
   shortened 20 d.component.version, (d.development.map yesNo).getD "-", yesNo d.explicit,
   shortened 50 (join ", " d.filePaths.toList)]

def detectorRow (d : DetectorInfo) : List String :=
  [d.id, toString d.version, yesNo d.experimental, join ", " (d.ecosystems.map (·.label))]

/-- Green for success, yellow for a partial one, red for the rest. -/
def coloredOutcome (o : Outcome) : String :=
  let color := match o with
    | .success => "32"
    | .partialSuccess => "33"
    | .inputError | .timeoutError => "31"
  "\x1b[" ++ color ++ "m" ++ o.label ++ "\x1b[0m"

def headLines (r : ScanResult) : List String :=
  ["", "Scan completed at: " ++ r.time.dateText ++ " " ++ r.time.clockText ++ " UTC",
   "Source: " ++ r.source, ""]

def componentLines (r : ScanResult) : List String :=
  if r.components.isEmpty then ["No components found."]
  else
    ["Found " ++ toString r.components.length ++ " components:", "",
     grid ["Type", "Name", "Version", "Dev", "Explicit", "Locations"]
       (r.components.map componentRow)]

def detectorLines (r : ScanResult) : List String :=
  if r.detectors.isEmpty then []
  else
    ["", "Detectors:",
     grid ["Detector", "Version", "Experimental", "Types"] (r.detectors.map detectorRow)]

/-- The ecosystems are told apart only if there are several. -/
def ecosystemLines (r : ScanResult) : List String :=
  if r.ecosystemCounts.length ≤ 1 then []
  else
    ["  By type: " ++
      join ", " (r.ecosystemCounts.map fun (e, n) => toString n ++ " " ++ e.label)]

def summaryLines (r : ScanResult) : List String :=
  ["", "Summary:",
   "  Total components: " ++ toString r.components.length,
   "  Explicitly referenced: " ++ toString r.explicitCount,
   "  Development dependencies: " ++ toString r.developmentCount] ++
  ecosystemLines r ++
  ["  Manifests: " ++ toString r.graphs.size, "",
   "Result: " ++ coloredOutcome r.outcome]

def listing (r : ScanResult) : String :=
  String.join <|
    (headLines r ++ componentLines r ++ detectorLines r ++ summaryLines r).map (· ++ "\n")

end Inventory.Report
