import Inventory.Component.Basic
import Inventory.Text.Quoted
import Inventory.Text.Split

/-! What the library refuses. -/
namespace Inventory

inductive Error where
  /-- An allowed detector id is none that can run. -/
  | unknownDetector (id : String)
  /-- No detector is left in the allowed categories. -/
  | noDetector (categories : List String)
  /-- The location of a manifest is blank. -/
  | blankLocation (location : String)
  /-- The component is not in the graph that was asked. -/
  | unknownComponent (id : String)
  | missingField (e : Component.MissingField)
  /-- The settings file cannot be read or makes no sense. -/
  | settings (path reason : String)
  deriving DecidableEq, Repr

def Error.message : Error → String
  | unknownDetector id => "detector '" ++ id ++ "' was not found"
  | noDetector categories =>
    "categories " ++ Text.join "," categories ++ " did not match any available detectors"
  | blankLocation location => "invalid manifest location: " ++ Text.quoteBlank location
  | unknownComponent id => "component '" ++ id ++ "' is not present in the dependency graph"
  | missingField e => e.message
  | settings path reason => "config error: " ++ path ++ ": " ++ reason

end Inventory
