import Inventory.Graph.Shared
import Inventory.Recorder.Basic

/-! Several callers that register components at one recorder at once. A call is a task of up to four
accesses, of which the first is to the store and the others are to the graph. -/
namespace Inventory.FileRecorder

structure Registration where
  detected : Detected
  usage : Usage := {}
  deriving DecidableEq, Repr

namespace Registration

def id (c : Registration) : String := c.detected.id

/-- What the call adds to the graph. -/
def addition (c : Registration) : Graph.Addition := ⟨sighting c.id c.usage, c.usage.parent⟩

end Registration

/-- A call that nothing comes between. -/
def registerCall (r : FileRecorder) (c : Registration) : FileRecorder :=
  r.register c.detected c.usage

/-- What a call has still to do. -/
inductive Task where
  | store (call : Registration)
  | add (rest : Graph.Task)
  deriving DecidableEq, Repr

/-- The next access of a call. -/
def Task.step (r : FileRecorder) : Task → FileRecorder × Task
  | store c => (r.store c.detected c.usage.framework, add (.see c.addition))
  | add rest => ({ r with graph := (rest.step r.graph).1 }, add (rest.step r.graph).2)

/-- Calls on a recorder. None of them has begun. -/
def registering (r : FileRecorder) (calls : List Registration) : Shared FileRecorder Task :=
  ⟨r, calls.map .store⟩

/-- Every call has come to its end. -/
def finished (tasks : List Task) : Bool := tasks.all (· == .add .done)

end Inventory.FileRecorder
