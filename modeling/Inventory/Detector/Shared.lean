import Inventory.Detector.Manifest
import Inventory.Recorder.Shared

/-! Manifests that are read at once into one recorder. Each is a task, which makes a place for its
manifest and then calls the recorder of that manifest, one call at a step. -/
namespace Inventory

namespace FileRecorder

/-- A call that writes. -/
inductive Call where
  | register (registration : Registration)
  | addFailure (text : String)
  | addRelatedFile (path : String)
  deriving DecidableEq, Repr

def Call.apply (c : Call) (r : FileRecorder) : FileRecorder :=
  match c with
  | register registration => r.registerCall registration
  | addFailure text => r.addFailure text
  | addRelatedFile path => r.addRelatedFile path

/-- What a reader does with a recorder. It may look at a component that is recorded, and go on from
what it sees. -/
inductive Script where
  | done
  | call (c : Call) (rest : Script)
  | look (id : String) (rest : Option Component → Script)

/-- A script that nothing comes between. -/
def Script.run : Script → FileRecorder → FileRecorder
  | done, r => r
  | call c rest, r => rest.run (c.apply r)
  | look id rest, r => (rest (r.component? id)).run r

end FileRecorder

namespace Manifest

open FileRecorder (Script)

/-- What has still to be done with a manifest. -/
inductive Task where
  | create (location : String) (script : Script)
  | work (location : String) (rest : Script)
  | done

namespace Task

def step (r : Recorder) : Task → Recorder × Task
  | create location script =>
    match r.create location with
    | .error _ => (r, done)
    | .ok r => (r, work location script)
  | work _ .done => (r, done)
  | work location (.call c rest) =>
    ({ r with files := r.files.modify location c.apply }, work location rest)
  | work location (.look id rest) =>
    (r, work location (rest ((r.files.get? location).bind (·.component? id))))
  | done => (r, done)

def isDone : Task → Bool
  | done => true
  | create .. | work .. => false

end Task

/-- Manifests of which none has been begun. -/
def reading (r : Recorder) (manifests : List Manifest) (script : Manifest → Script) :
    Shared Recorder Task :=
  ⟨r, manifests.map fun m => .create m.location (script m)⟩

def finished (tasks : List Task) : Bool := tasks.all Task.isDone

end Manifest

end Inventory
