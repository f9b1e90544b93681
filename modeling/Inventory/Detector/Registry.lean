import Inventory.Detector.Cargo
import Inventory.Detector.GoMod
import Inventory.Detector.Npm
import Inventory.Detector.Pip

/-! The detectors that come with the library. -/
namespace Inventory.Detector

def builtIn : List Detector := [Cargo.detector, Npm.detector, Pip.detector, GoMod.detector]

/-- The patterns of the names of the files that they read. -/
def manifestPatterns : List String :=
  Cargo.patterns ++ Npm.patterns ++ Pip.patterns ++ GoMod.patterns

/-- The detector of this id, in any case. -/
def named? (id : String) : Option Detector := builtIn.find? fun d => Text.eqIgnoringCase d.id id

end Inventory.Detector
