import Inventory.Graph.Basic
import Inventory.Shared

/-! Several callers that add components to one graph at once. A call is a task of up to three
accesses. -/
namespace Inventory.Graph

/-- A call that adds a component. -/
structure Addition where
  sighting : Sighting
  parent : Option String := none
  deriving DecidableEq, Repr

def Addition.id (c : Addition) : String := c.sighting.id

/-- What a call has still to do. -/
inductive Task where
  | see (call : Addition)
  | link (parent child : String)
  | backlink (parent child : String)
  /-- The parent was not there when it was looked up. -/
  | report (parent child : String)
  | done
  deriving DecidableEq, Repr

namespace Task

/-- No component is linked to itself. -/
def afterSee (c : Addition) : Task :=
  match c.parent with
  | none => done
  | some parent => if parent = c.id then done else link parent c.id

/-- The next access of a call. -/
def step (g : Graph) : Task → Graph × Task
  | see c => (g.see c.sighting, afterSee c)
  | link parent child =>
    if g.contains parent then (g.addChild parent child, backlink parent child)
    else (g, report parent child)
  | backlink parent child => (g.addParent child parent, done)
  | report parent child => (g.addFailure (missingParent parent child), done)
  | done => (g, done)

/-- The call has begun and has not come to its end. -/
def inFlight : Task → Bool
  | link .. | backlink .. | report .. => true
  | see _ | done => false

end Task

/-- Calls on a graph. None of them has begun. -/
def calling (g : Graph) (calls : List Addition) : Shared Graph Task := ⟨g, calls.map .see⟩

/-- Every call has come to its end. -/
def finished (tasks : List Task) : Bool := tasks.all (· == .done)

/-- No call is between its first access and its end. -/
def quiet (tasks : List Task) : Bool := !tasks.any Task.inFlight

end Inventory.Graph
