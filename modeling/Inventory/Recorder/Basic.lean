import Inventory.Component.Detected
import Inventory.Error
import Inventory.Graph.Ancestry

/-! What detectors write into: a store of components and a dependency graph for each manifest. -/
namespace Inventory

/-- How a component was used where a detector saw it. -/
structure Usage where
  explicit : Bool := false
  parent : Option String := none
  development : Option Bool := none
  scope : Option Scope := none
  framework : Option String := none
  deriving DecidableEq, Repr

/-- The recorder of one manifest. -/
structure FileRecorder where
  components : SortedMap Detected := .empty
  graph : Graph := {}
  deriving DecidableEq, Repr

namespace FileRecorder

def withFrameworks (frameworks : StringSet) (framework : Option String) (d : Detected) : Detected :=
  { d with frameworks := (StringSet.union d.frameworks frameworks).addAll framework.toList }

/-- The first registration of an id is the one that is stored. Later ones add target frameworks. -/
def store (r : FileRecorder) (d : Detected) (framework : Option String) : FileRecorder :=
  { r with components := r.components.upsert d.id fun old =>
      withFrameworks d.frameworks framework (old.getD d) }

def sighting (id : String) (u : Usage) : Sighting := ⟨id, u.explicit, u.development, u.scope⟩

def register (r : FileRecorder) (d : Detected) (u : Usage) : FileRecorder :=
  { r.store d u.framework with graph := r.graph.add (sighting d.id u) u.parent }

def addFailure (r : FileRecorder) (text : String) : FileRecorder :=
  { r with graph := r.graph.addFailure text }

/-- Adds a file that counts as a location of every component of this manifest. -/
def addRelatedFile (r : FileRecorder) (path : String) : FileRecorder :=
  { r with graph := r.graph.addRelatedFile path }

def component? (r : FileRecorder) (id : String) : Option Component :=
  (r.components.get? id).map (·.component)

end FileRecorder

/-- The recorders of the manifests that one detector read, by location. -/
structure Recorder where
  files : SortedMap FileRecorder := .empty
  manualRoots : Bool := true
  rule : DevelopmentRule := .productionWins
  deriving DecidableEq, Repr

namespace Recorder

instance : Inhabited Recorder := ⟨{}⟩

def newFile (r : Recorder) : FileRecorder :=
  { graph := { manualRoots := r.manualRoots, rule := r.rule } }

/-- The recorder has a place for a manifest at `location`. -/
def create (r : Recorder) (location : String) : Except Error Recorder :=
  if Text.isBlank location then .error (.blankLocation location)
  else .ok { r with files := r.files.insertNew location r.newFile }

/-- Replaces the recorder of one manifest. -/
def put (r : Recorder) (location : String) (file : FileRecorder) : Recorder :=
  { r with files := r.files.insert location file }

/-- Writes to the recorder of one manifest. -/
def write (r : Recorder) (location : String) (f : FileRecorder → FileRecorder) :
    Except Error Recorder := do
  let r ← r.create location
  return { r with files := r.files.modify location f }

def register (r : Recorder) (location : String) (d : Detected) (u : Usage) :
    Except Error Recorder :=
  r.write location (·.register d u)

def addFailure (r : Recorder) (location text : String) : Except Error Recorder :=
  r.write location (·.addFailure text)

def addRelatedFile (r : Recorder) (location path : String) : Except Error Recorder :=
  r.write location (·.addRelatedFile path)

/-- The component of this id in the first manifest that has it. -/
def component? (r : Recorder) (id : String) : Option Component :=
  r.files.values.findSome? (·.component? id)

end Recorder

end Inventory
