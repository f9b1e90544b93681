import Inventory.Component.Development
import Inventory.Exclusion
import Inventory.SortedMap
import Inventory.Text.Split

/-! What shapes one scan. -/
namespace Inventory

structure ScanArguments where
  source : String
  /-- Arguments for detectors, by name. -/
  detectorArguments : SortedMap String := .empty
  /-- Globs of folders that are not entered. -/
  exclusions : List String := []
  /-- The categories and the ids of the detectors that may run; none of them is all of them. -/
  categories : List String := []
  detectors : List String := []
  maxThreads : Nat := 5
  /-- How long an experimental detector may run, in milliseconds. -/
  timeLimit : Nat := 240000
  rule : DevelopmentRule := .productionWins
  /-- Wildcard patterns of the component ids that the result leaves out. -/
  ignored : List String := []
  deriving DecidableEq, Repr

def ScanArguments.exclusion (a : ScanArguments) : Exclusion := .forPlatform a.exclusions

inductive DetectorArgumentError where
  | noValue (argument : String)
  | noKey (argument : String)
  deriving DecidableEq, Repr

def DetectorArgumentError.message : DetectorArgumentError → String
  | noValue argument => "Invalid detector argument '" ++ argument ++ "', expected Key=Value"
  | noKey argument => "Invalid detector argument '" ++ argument ++ "', key is empty"

namespace DetectorArgument

open Text

/-- A key and a value around the first equals sign. -/
def parse (argument : String) : Except DetectorArgumentError (String × String) :=
  match cutAt? ['='] argument.toList with
  | none => .error (.noValue argument)
  | some (key, value) =>
    let key := trim key
    if key.isEmpty then .error (.noKey argument)
    else .ok (String.ofList key, String.ofList (trim value))

/-- The last value given for a key counts. -/
def parseAll (arguments : List String) : Except DetectorArgumentError (SortedMap String) := do
  return .ofList (← arguments.mapM parse)

end DetectorArgument

end Inventory
