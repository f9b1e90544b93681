import Inventory.Detector.Basic
import Inventory.Wildcard

/-! Manifest files: finding them below a folder, and reading each into a recorder of its own. What
is wrong with one manifest is noted in its recorder and concerns no other. -/
namespace Inventory

/-- A file whose name a detector looks for. -/
structure Manifest where
  path : String
  /-- The first of the detector's patterns that the name matches. -/
  pattern : String
  /-- The content, unless it is no text. -/
  text : Option String
  deriving DecidableEq, Repr

namespace Manifest

/-- Where its components are recorded. Paths that are shown alike have one location. -/
def location (m : Manifest) : String := Path.shown m.path

/-- Order by the parts of the paths. -/
def le (a b : Manifest) : Bool := !decide (Path.order b.path < Path.order a.path)

def ofFile? (patterns : List String) (file : String × Option String) : Option Manifest :=
  (patterns.find? (Wildcard.matches · (Path.shown (Path.fileName file.1)))).map fun pattern =>
    ⟨file.1, pattern, file.2⟩

/-- The files at and below `root` whose names match a pattern, in the order of their paths. Excluded
folders below the root are not entered. -/
def find (world : FileTree.World) (root : String) (patterns : List String) (exclusion : Exclusion) :
    List Manifest :=
  ((world.filesBelow (fun folder => !exclusion.excludesPath (Path.shown folder)) root).filterMap
    (ofFile? patterns)).mergeSort le

/-- Reads a manifest with this text into its recorder. A reader that fails gives the reason. -/
abbrev Reader := Manifest → (text : String) → FileRecorder → FileRecorder × Option String

def failure (m : Manifest) (reason : String) : String := m.location ++ ": " ++ reason

/-- Reads one manifest, and says whether it was a text that could be looked into. -/
def readInto (read : Reader) (m : Manifest) (r : FileRecorder) : FileRecorder × Bool :=
  match m.text with
  | none => (r.addFailure (m.failure FileError.notText.message), false)
  | some text =>
    match read m text r with
    | (r, none) => (r, true)
    | (r, some reason) => (r.addFailure (m.failure reason), true)

/-- Takes one more manifest into the recorder and into the count. -/
def take (read : Reader) (state : Recorder × Nat) (m : Manifest) : Recorder × Nat :=
  match state.1.create m.location with
  | .error _ => state
  | .ok r =>
    let (file, counted) := m.readInto read ((r.files.get? m.location).getD r.newFile)
    (r.put m.location file, if counted then state.2 + 1 else state.2)

/-- Reads all manifests of a request, and counts them. -/
def readAll (world : FileTree.World) (request : Request) (patterns : List String) (read : Reader)
    (recorder : Recorder) : Recorder × Nat :=
  if request.cancelled then (recorder, 0)
  else (find world request.source patterns request.exclusion).foldl (take read) (recorder, 0)

/-- Adds a file beside the manifest as a related file, if there is one. -/
def addSibling (world : FileTree.World) (m : Manifest) (name : String) (r : FileRecorder) :
    FileRecorder :=
  match Path.sibling? m.path name with
  | some path => if world.exists path then r.addRelatedFile (Path.shown path) else r
  | none => r

def notParsed (m : Manifest) : String := "Failed to parse " ++ m.location

/-- The run of a detector that works off manifests. It reports their number under `countKey`. -/
def run (patterns : List String) (countKey : String)
    (read : FileTree.World → Request → Reader) (world : FileTree.World) (request : Request)
    (recorder : Recorder) : Recorder × Ending :=
  let (recorder, count) := readAll world request patterns (read world request) recorder
  (recorder, .finished .success (.ofList [(countKey, toString count)]))

end Manifest

end Inventory
