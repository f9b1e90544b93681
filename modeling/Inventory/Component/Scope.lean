/-! Maven's dependency scopes. Of several scopes of one component the one with the highest priority
counts, compile before runtime before provided before system before test. -/
namespace Inventory

inductive Scope where
  | compile
  | runtime
  | provided
  | system
  | test
  deriving DecidableEq, Repr

namespace Scope

def all : List Scope := [compile, runtime, provided, system, test]

/-- The highest priority is 0. -/
def rank : Scope → Nat
  | compile => 0
  | runtime => 1
  | provided => 2
  | system => 3
  | test => 4

def label : Scope → String
  | compile => "MavenCompile"
  | runtime => "MavenRuntime"
  | provided => "MavenProvided"
  | system => "MavenSystem"
  | test => "MavenTest"

def ofLabel? (s : String) : Option Scope := all.find? (·.label == s)

def merge : Option Scope → Option Scope → Option Scope
  | none, other | other, none => other
  | some a, some b => some (if b.rank < a.rank then b else a)

end Scope

end Inventory
