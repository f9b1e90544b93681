import Inventory.Recorder.Basic

/-! What can be read off a recorder once its detector has run: the components of all manifests
merged by id, the graphs by location, and where each component stands. -/
namespace Inventory

namespace FileRecorder

/-- A stored component with what the graph and the location say of it. -/
def observe (r : FileRecorder) (location : String) (d : Detected) : Detected :=
  let roots := (r.graph.explicitRoots d.id).toOption.getD .empty
  { d with
    filePaths := StringSet.union (d.filePaths.add location) r.graph.relatedFiles
    development := r.graph.development? d.id
    scope := r.graph.scope? d.id
    explicit := r.graph.isExplicit d.id
    roots := d.roots.insertAll (roots.toList.filterMap r.component?) }

def observations (r : FileRecorder) (location : String) : List Detected :=
  (r.components.values.filter (r.graph.contains ·.id)).map (r.observe location)

end FileRecorder

/-- Where one component stands in the manifests of a recorder. -/
structure Grouping where
  id : String
  /-- The manifests whose graphs have it. -/
  foundIn : List String := []
  /-- Those manifests and their related files. -/
  files : StringSet := .empty
  explicitParents : StringSet := .empty
  deriving DecidableEq, Repr

namespace Recorder

def detected (r : Recorder) : List Detected :=
  Detected.mergeAll r.rule (r.files.entries.flatMap fun e => e.2.observations e.1)

def failures (r : Recorder) : StringSet :=
  r.files.values.foldl (fun s f => StringSet.union s f.graph.failures) .empty

/-- The graphs that have components. -/
def graphs (r : Recorder) : List (String × Graph) :=
  (r.files.entries.filter fun e => !e.2.graph.isEmpty).map fun e => (e.1, e.2.graph)

def effectiveDevelopment (r : Recorder) (id : String) : Option Bool :=
  r.rule.effective <|
    (r.files.values.filter (·.graph.contains id)).map (·.graph.development? id)

def explicitIds (r : Recorder) : StringSet :=
  r.graphs.foldl (fun s e => s.addAll e.2.explicitIds) .empty

/-- Notes that a component stands in the graph of one manifest. -/
def noteIn (location : String) (graph : Graph) (groups : SortedMap Grouping) (id : String) :
    SortedMap Grouping :=
  groups.upsert id fun old =>
    let old := old.getD { id }
    { old with
      foundIn := old.foundIn ++ [location]
      files := StringSet.union (old.files.add location) graph.relatedFiles
      explicitParents :=
        StringSet.union old.explicitParents ((graph.explicitRoots id).toOption.getD .empty) }

def groups (r : Recorder) : List Grouping :=
  (r.files.entries.foldl (fun groups e => e.2.graph.ids.foldl (noteIn e.1 e.2.graph) groups)
    SortedMap.empty).values

end Recorder

end Inventory
