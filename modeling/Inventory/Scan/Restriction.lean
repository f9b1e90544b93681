import Inventory.Detector.Basic
import Inventory.Error
import Inventory.Scan.Arguments

/-! Which of the registered detectors a scan runs. Ids and categories are compared without case. -/
namespace Inventory

structure Restrictions where
  allowed : List String := []
  categories : List String := []
  /-- Detectors enabled by name, whatever the other restrictions say. -/
  enabled : StringSet := .empty
  deriving DecidableEq, Repr

/-- The values that enable a detector when they are its argument. -/
def enablingValues : List String := ["EnableIfDefaultOff", "Enable"]

def isEnabling (value : String) : Bool := enablingValues.any (Text.eqIgnoringCase · value)

def ScanArguments.restrictions (a : ScanArguments) : Restrictions where
  allowed := a.detectors
  categories := a.categories
  enabled := .ofList <| (a.detectorArguments.entries.filter fun e => isEnabling e.2).map (·.1)

namespace Restrictions

def names (ids : List String) (id : String) : Bool := ids.any (Text.eqIgnoringCase · id)

/-- Ids of detectors that one other detector has taken the place of. -/
def retiredIds : List String :=
  ["MSLicenseDevNpm", "MSLicenseDevNpmList", "MSLicenseNpm", "MSLicenseNpmList"]

def replacementId : String := "NpmWithRoots"

def isRetired (id : String) : Bool := names retiredIds id

def isEnabled (r : Restrictions) (id : String) : Bool := names r.enabled.toList id

/-- The allowed ids, with the replacement of the retired ones among them. -/
def allowedIds (r : Restrictions) : List String :=
  if r.allowed.any isRetired && !names r.allowed replacementId then r.allowed ++ [replacementId]
  else r.allowed

/-- Keeps the detectors with allowed ids. Every allowed id that is not retired must be one
of them. -/
def keepAllowed (r : Restrictions) (detectors : List Detector) : Except Error (List Detector) :=
  if r.allowed.isEmpty then .ok detectors
  else
    let kept := detectors.filter fun d => names r.allowedIds d.id
    match r.allowedIds.find? fun id => !isRetired id && !names (kept.map (·.id)) id with
    | some id => .error (.unknownDetector id)
    | none => .ok kept

def hasCategory (categories : List String) (d : Detector) : Bool :=
  d.categories.any fun c => c == .all || categories.any c.isNamed

/-- Keeps the detectors of the wanted categories, of which there must be some. -/
def keepCategories (r : Restrictions) (detectors : List Detector) : Except Error (List Detector) :=
  if r.categories.isEmpty || r.categories.any Category.all.isNamed then .ok detectors
  else match detectors.filter (hasCategory r.categories) with
    | [] => .error (.noDetector r.categories)
    | kept => .ok kept

/-- Adds a detector that is off by default, if it is enabled and its id is not there yet. -/
def addEnabled (r : Restrictions) (kept : List Detector) (d : Detector) : List Detector :=
  if r.isEnabled d.id && !kept.any (·.id == d.id) then kept ++ [d] else kept

/-- The detectors that run, in the order of the registry but with those that are off by default
last. -/
def apply (r : Restrictions) (registry : List Detector) : Except Error (List Detector) := do
  let kept ← r.keepAllowed (registry.filter (!·.defaultOff))
  let kept ← r.keepCategories kept
  return (registry.filter (·.defaultOff)).foldl r.addEnabled kept

/-- An experimental detector that is enabled by name runs like any other. -/
def onTrial (r : Restrictions) (d : Detector) : Bool := d.experimental && !r.isEnabled d.id

end Restrictions

end Inventory
