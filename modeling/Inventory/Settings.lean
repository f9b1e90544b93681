import Inventory.Error
import Inventory.FileTree
import Inventory.Scan.Arguments
import Inventory.Toml.Decode
import Inventory.Toml.Printer
import Inventory.Toml.Reader
import Inventory.Wildcard
import Inventory.Word

/-! The settings that a user keeps in a TOML file. Each has a value of its own where the file leaves
it out, and what the file has beyond them is passed over. -/
namespace Inventory

structure Settings where
  categories : List String := []
  detectors : List String := []
  exclusions : List String := []
  /-- How long an experimental detector may run. -/
  timeLimitSeconds : Nat := 240
  maxThreads : Nat := 5
  rule : DevelopmentRule := .productionWins
  format : String := "table"
  logLevel : String := "info"
  logFormat : String := "compact"
  /-- Where telemetry records go. -/
  telemetryFile : Option String := none
  detectorArguments : SortedMap String := .empty
  /-- Wildcard patterns of component ids. -/
  ignored : List String := []
  deriving DecidableEq, Repr

namespace Settings

def ignores (s : Settings) (id : String) : Bool := Wildcard.matchesAny s.ignored id

/-- The arguments of a scan of `source`. -/
def scanArguments (s : Settings) (source : String) : ScanArguments where
  source := source
  detectorArguments := s.detectorArguments
  exclusions := s.exclusions
  categories := s.categories
  detectors := s.detectors
  maxThreads := s.maxThreads
  timeLimit := s.timeLimitSeconds * 1000
  rule := s.rule
  ignored := s.ignored

def fieldNames : List String :=
  ["detector_categories", "detectors_filter", "directory_exclusion_list",
   "experimental_timeout_secs", "max_threads", "dev_dependency_merge", "default_format",
   "log_level", "log_format", "telemetry_file", "detector_args", "ignore"]

def texts? (value : Toml) : Option (List String) := value.list? Toml.string?
def number? (value : Toml) : Option Nat := value.natBelow? Word.limit64
def rule? (value : Toml) : Option DevelopmentRule := value.name?.bind DevelopmentRule.ofLabel?

def ignored? (value : Toml) : Option (List String) := do
  (← value.fields? ["components"]).defaulted "components" texts? []

def ofToml? (value : Toml) : Option Settings := do
  let f ← value.fields? fieldNames
  let standard : Settings := {}
  return {
    categories := ← f.defaulted "detector_categories" texts? []
    detectors := ← f.defaulted "detectors_filter" texts? []
    exclusions := ← f.defaulted "directory_exclusion_list" texts? []
    timeLimitSeconds :=
      ← f.defaulted "experimental_timeout_secs" number? standard.timeLimitSeconds
    maxThreads := ← f.defaulted "max_threads" number? standard.maxThreads
    rule := ← f.defaulted "dev_dependency_merge" rule? standard.rule
    format := ← f.defaulted "default_format" Toml.string? standard.format
    logLevel := ← f.defaulted "log_level" Toml.string? standard.logLevel
    logFormat := ← f.defaulted "log_format" Toml.string? standard.logFormat
    telemetryFile := ← f.defaulted "telemetry_file" (fun v => v.string?.map some) none
    detectorArguments := ← f.defaulted "detector_args" (Toml.map? Toml.string?) .empty
    ignored := ← f.defaulted "ignore" ignored? [] }

/-- What a settings file with this text says. No scan can run with no thread at all. -/
def ofText (path text : String) : Except Error Settings :=
  match (Toml.read? text).bind ofToml? with
  | none => .error (.settings path "TOML parse error")
  | some s =>
    if s.maxThreads = 0 then .error (.settings path "max_threads must be at least 1") else .ok s

/-- The settings in a file, or those of a user who has none. -/
def load (world : FileTree.World) (path : String) : Except Error Settings :=
  if !world.exists path then .ok {}
  else match world.read? path with
    | .error e => .error (.settings path e.message)
    | .ok text => ofText path text

def document (s : Settings) : Toml.Document where
  entries :=
    [("detector_categories", .texts s.categories),
     ("detectors_filter", .texts s.detectors),
     ("directory_exclusion_list", .texts s.exclusions),
     ("experimental_timeout_secs", .number s.timeLimitSeconds),
     ("max_threads", .number s.maxThreads),
     ("dev_dependency_merge", .text s.rule.label),
     ("default_format", .text s.format),
     ("log_level", .text s.logLevel),
     ("log_format", .text s.logFormat)] ++
    s.telemetryFile.toList.map fun path => ("telemetry_file", .text path)
  sections :=
    [("detector_args", s.detectorArguments.entries.map fun e => (e.1, .text e.2)),
     ("ignore", [("components", .texts s.ignored)])]

/-- The text of the settings file, unless a number is too large for one. -/
def text? (s : Settings) : Option String :=
  if s.timeLimitSeconds < Word.signedLimit64 && s.maxThreads < Word.signedLimit64 then
    some s.document.text
  else none

/-- The text of the settings of a user who has none. -/
def standardText : String := (document {}).text

/-- Writes the settings to a file, in a folder that is made if it is missing. -/
def save (s : Settings) (world : FileTree.World) (path : String) :
    Except String FileTree.World :=
  match s.text? with
  | none => .error "out-of-range value for u64 type"
  | some text =>
    match world.makeFolderFor path with
    | .error e => .error e.message
    | .ok world => match world.write path text with
      | .error e => .error e.message
      | .ok world => .ok world

end Settings

end Inventory
