import Inventory.Document.Detected
import Inventory.Json.Printer
import Inventory.Json.Reader
import Inventory.Scan.Result
import Inventory.Word

/-! The JSON form of scan results, and the text in which a result is kept. -/
namespace Inventory

namespace DetectorInfo

def members (d : DetectorInfo) : List (String × Json) := [
  ("detectorId", .string d.id),
  ("isExperimental", .bool d.experimental),
  ("version", .nat d.version),
  ("supportedComponentTypes", .strings (d.ecosystems.map (·.label)))]

def toJson (d : DetectorInfo) : Json := .object d.members

def ecosystem? (value : Json) : Option Ecosystem := value.name?.bind Ecosystem.ofLabel?

def ofJson? (value : Json) : Option DetectorInfo := do
  let f ← value.fields? ["detectorId", "isExperimental", "version", "supportedComponentTypes"]
  return {
    id := ← f.required "detectorId" Json.string?
    experimental := ← f.required "isExperimental" Json.bool?
    version := ← f.required "version" (Json.natBelow? Word.limit32)
    ecosystems := ← f.required "supportedComponentTypes" (Json.list? ecosystem?) }

end DetectorInfo

namespace GraphSummary

def edgesJson (edges : SortedMap StringSet) : Json :=
  .object (edges.map fun children => Json.strings children.toList).entries

def members (g : GraphSummary) : List (String × Json) := [
  ("graph", edgesJson g.edges),
  ("explicitlyReferencedComponentIds", .strings g.explicit.toList),
  ("developmentDependencies", .strings g.development.toList)]

def toJson (g : GraphSummary) : Json := .object g.members

def ofJson? (value : Json) : Option GraphSummary := do
  let f ← value.fields? ["graph", "explicitlyReferencedComponentIds", "developmentDependencies"]
  return {
    edges := ← f.required "graph" (Json.map? Json.stringSet?)
    explicit := ← f.required "explicitlyReferencedComponentIds" Json.stringSet?
    development := ← f.required "developmentDependencies" Json.stringSet? }

end GraphSummary

def Outcome.ofJson? (value : Json) : Option Outcome := value.name?.bind Outcome.ofLabel?

namespace ScanResult

def members (r : ScanResult) : List (String × Json) := [
  ("correlationId", .string r.correlationId),
  ("scanTime", .string r.time.text),
  ("sourceDirectory", .string r.source),
  ("resultCode", .string r.outcome.label),
  ("componentsFound", .array (r.components.map Detected.toJson)),
  ("detectorsInScan", .array (r.detectors.map DetectorInfo.toJson)),
  ("detectorsNotInScan", .array (r.disabled.map DetectorInfo.toJson)),
  ("dependencyGraphs", .object (r.graphs.map GraphSummary.toJson).entries)]

def toJson (r : ScanResult) : Json := .object r.members

def fieldNames : List String :=
  ["correlationId", "scanTime", "sourceDirectory", "resultCode", "componentsFound",
   "detectorsInScan", "detectorsNotInScan", "dependencyGraphs"]

def ofJson? (value : Json) : Option ScanResult := do
  let f ← value.fields? fieldNames
  return {
    correlationId := ← f.required "correlationId" Json.string?
    time := ← f.required "scanTime" fun time => time.string?.bind Instant.ofText?
    source := ← f.required "sourceDirectory" Json.string?
    outcome := ← f.required "resultCode" Outcome.ofJson?
    components := ← f.required "componentsFound" (Json.list? (Detected.ofJson? 2))
    detectors := ← f.required "detectorsInScan" (Json.list? DetectorInfo.ofJson?)
    disabled := ← f.defaulted "detectorsNotInScan" (Json.list? DetectorInfo.ofJson?) []
    graphs := ← f.required "dependencyGraphs" (Json.map? GraphSummary.ofJson?) }

/-- The text in which a result is kept. -/
def text (r : ScanResult) : String := r.toJson.pretty

def ofText? (s : String) : Option ScanResult := (Json.read? s).bind ofJson?

/-- Writes the result to a file, in a folder that is made if it is missing. -/
def writeTo (r : ScanResult) (path : String) (world : FileTree.World) :
    Except FileError FileTree.World := do
  (← world.makeFolderFor path).write path r.text

end ScanResult

end Inventory
