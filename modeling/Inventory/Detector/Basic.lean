import Inventory.Component.Ecosystem
import Inventory.Detector.Category
import Inventory.Exclusion
import Inventory.FileTree
import Inventory.Outcome
import Inventory.Recorder.Basic

/-! Detectors: each finds the components of one ecosystem in a folder and writes them into a
recorder. How a run ends is a matter of its own, since a detector that fails may have written
before. -/
namespace Inventory

/-- What a detector is asked. -/
structure Request where
  source : String
  exclusion : Exclusion := .none
  arguments : SortedMap String := .empty
  maxThreads : Nat := 5
  /-- The run was called off before it began. -/
  cancelled : Bool := false

/-- Further facts about a run, by name. -/
abbrev Details := SortedMap String

inductive Ending where
  | finished (outcome : Outcome) (details : Details)
  /-- What went wrong, and before it what was being done, the outermost first. -/
  | failed (texts : List String)
  /-- The run broke off, with or without a message. -/
  | panicked (message : Option String)
  /-- The run never ends. -/
  | hanging
  deriving DecidableEq, Repr

structure Detector where
  id : String
  version : Nat
  categories : List Category
  ecosystems : List Ecosystem
  /-- Its findings are on trial and no part of a result, unless it is enabled by name. -/
  experimental : Bool := false
  /-- It runs only if it is enabled by name. -/
  defaultOff : Bool := false
  /-- Components without parents count as explicitly referenced. -/
  automaticRoots : Bool := false
  run : FileTree.World → Request → Recorder → Recorder × Ending

/-- The recorder that a run of the detector starts with. -/
def Detector.newRecorder (d : Detector) (rule : DevelopmentRule) : Recorder :=
  { manualRoots := !d.automaticRoots, rule }

/-- What a result says of a detector. -/
structure DetectorInfo where
  id : String
  experimental : Bool
  version : Nat
  ecosystems : List Ecosystem
  deriving DecidableEq, Repr

def Detector.info (d : Detector) (experimental : Bool) : DetectorInfo :=
  ⟨d.id, experimental, d.version, d.ecosystems⟩

end Inventory
