/-! How a detector run or a whole scan ended, from best to worst. -/
namespace Inventory

inductive Outcome where
  | success
  | partialSuccess
  | inputError
  | timeoutError
  deriving DecidableEq, Repr

namespace Outcome

instance : Inhabited Outcome := ⟨success⟩

def all : List Outcome := [success, partialSuccess, inputError, timeoutError]

def label : Outcome → String
  | success => "Success"
  | partialSuccess => "PartialSuccess"
  | inputError => "InputError"
  | timeoutError => "TimeoutError"

def ofLabel? (s : String) : Option Outcome := all.find? (·.label == s)

def severity : Outcome → Nat
  | success => 0
  | partialSuccess => 1
  | inputError => 2
  | timeoutError => 3

/-- The exit status of a scan with this outcome; 1 is left to scans that did not run. -/
def exitCode : Outcome → Nat
  | success => 0
  | partialSuccess => 2
  | inputError => 3
  | timeoutError => 4

def worse (a b : Outcome) : Outcome := if a.severity ≤ b.severity then b else a

def worst (outcomes : List Outcome) : Outcome := outcomes.foldl worse success

end Outcome

end Inventory
