import Inventory.Detector.Manifest
import Inventory.Json.Decode
import Inventory.Json.Reader
import Inventory.Word

/-! Lock files of npm, versions 2 and 3. Their keys are install paths, and a package finds what it
depends on in the closest `node_modules` folder up the tree. -/
namespace Inventory.Npm

/-- What a lock file says of the package at one install path. -/
structure Entry where
  name : Option String
  version : Option String
  integrity : Option String
  development : Bool
  /-- The path is a link to a package elsewhere. -/
  isLink : Bool
  dependencies : SortedMap String
  devDependencies : SortedMap String
  optionalDependencies : SortedMap String
  deriving DecidableEq, Repr

def Entry.allDependencies (e : Entry) : List String :=
  e.dependencies.keys ++ e.devDependencies.keys ++ e.optionalDependencies.keys

structure Lock where
  version : Option Nat
  packages : SortedMap Entry
  deriving DecidableEq, Repr

def texts? (value : Json) : Option (SortedMap String) := value.map? Json.string?

def entry? (value : Json) : Option Entry := do
  let f ← value.fields? ["name", "version", "integrity", "dev", "link", "dependencies",
    "devDependencies", "optionalDependencies"]
  return {
    name := ← f.optional "name" Json.string?
    version := ← f.optional "version" Json.string?
    integrity := ← f.optional "integrity" Json.string?
    development := ← f.defaulted "dev" Json.bool? false
    isLink := ← f.defaulted "link" Json.bool? false
    dependencies := ← f.defaulted "dependencies" texts? .empty
    devDependencies := ← f.defaulted "devDependencies" texts? .empty
    optionalDependencies := ← f.defaulted "optionalDependencies" texts? .empty }

def lock? (text : String) : Option Lock := do
  let f ← (← Json.read? text).fields? ["lockfileVersion", "packages"]
  return {
    version := ← f.optional "lockfileVersion" (Json.natBelow? Word.limit32)
    packages := ← f.defaulted "packages" (Json.map? entry?) .empty }

open Text

def folder : List Char := "node_modules/".toList
def innerFolder : List Char := "/node_modules/".toList

/-- The name in an install path: all that follows the last folder. -/
def packageName (path : String) : String :=
  match cutAtLast? folder path.toList with
  | some (_, name) => String.ofList name
  | none => path

/-- The install path that holds `path`, empty for a path at the top. -/
def parentPath (path : List Char) : List Char :=
  ((cutAtLast? innerFolder path).map (·.1)).getD []

theorem length_parentPath_lt {path : List Char} (h : path ≠ []) :
    (parentPath path).length < path.length := by
  unfold parentPath
  cases e : cutAtLast? innerFolder path with
  | none => simpa using List.length_pos_iff.2 h
  | some p =>
    obtain ⟨before, after⟩ := p
    have := congrArg List.length (eq_append_of_cutAtLast? e)
    have pos : 0 < innerFolder.length := by decide
    simp only [List.length_append] at this
    simp only [Option.map_some, Option.getD_some]
    omega

/-- The install path of `name` directly below `base`. -/
def candidate (base : List Char) (name : String) : String :=
  if base.isEmpty then String.ofList folder ++ name
  else String.ofList base ++ String.ofList innerFolder ++ name

/-- The install path of `name` as seen from `base`: the closest one up the tree that is there. -/
def resolve (installed : String → Bool) (base : List Char) (name : String) : Option String :=
  if installed (candidate base name) then some (candidate base name)
  else if _top : base = [] then none
  else resolve installed (parentPath base) name
termination_by base.length
decreasing_by exact length_parentPath_lt _top

/-- The entry is a package in a `node_modules` folder of the project. -/
def isInstalled (path : String) (e : Entry) : Bool :=
  !path.isEmpty && !e.isLink && containsLiteral folder path.toList

def component? (path : String) (e : Entry) : Option Component :=
  (Component.npm (e.name.getD (packageName path)) (e.version.getD "") e.integrity).checked.toOption

/-- The id under which the package at an install path is reported. -/
def idOf? (lock : Lock) (path : String) : Option String := do
  let e ← lock.packages.get? path
  if isInstalled path e then (component? path e).map (·.id) else none

/-- What the project itself depends on. -/
def rootNames (lock : Lock) : List String :=
  ((lock.packages.get? "").map (·.allDependencies)).getD []

def isExplicit (lock : Lock) (path : String) : Bool :=
  (parentPath path.toList).isEmpty && (rootNames lock).contains (packageName path)

def report (lock : Lock) (r : FileRecorder) (entry : String × Entry) : FileRecorder :=
  let (path, e) := entry
  if !isInstalled path e then r
  else match component? path e with
    | none => r.addFailure path
    | some c => r.register { component := c }
        { explicit := isExplicit lock path, development := some e.development }

/-- Links a reported package to one that it depends on; what is not installed is passed over. -/
def link (lock : Lock) (path parent : String) (r : FileRecorder) (name : String) : FileRecorder :=
  let child := do
    let childPath ← resolve lock.packages.contains path.toList name
    let c ← (idOf? lock childPath).bind r.component?
    return (c, ← lock.packages.get? childPath)
  match child with
  | none => r
  | some (c, e) => r.register { component := c }
      { parent := some parent, development := some e.development }

def linkAll (lock : Lock) (r : FileRecorder) (entry : String × Entry) : FileRecorder :=
  match idOf? lock entry.1 with
  | none => r
  | some parent => entry.2.allDependencies.foldl (link lock entry.1 parent) r

/-- Records the packages of a lock file: first all of them, then their links. -/
def record (lock : Lock) (r : FileRecorder) : FileRecorder :=
  lock.packages.entries.foldl (linkAll lock) (lock.packages.entries.foldl (report lock) r)

def versionText : Option Nat → String
  | some n => "Some(" ++ toString n ++ ")"
  | none => "None"

def read (world : FileTree.World) : Manifest.Reader := fun m text r =>
  match lock? text with
  | none => (r, some m.notParsed)
  | some lock =>
    if lock.version = some 2 || lock.version = some 3 then
      (m.addSibling world "package.json" (record lock r), none)
    else (r, some ("unsupported lockfileVersion " ++ versionText lock.version))

/-- The lock file lies in an installed package below `root`, and so describes that package rather
than the project. -/
def inInstalledPackage (root path : String) : Bool :=
  (Path.componentsBelow root path).contains "node_modules"

def patterns : List String := ["package-lock.json"]

def detector : Detector where
  id := "NpmWithRoots"
  version := 3
  categories := [.npm]
  ecosystems := [.npm]
  run := Manifest.run patterns "lockFiles" fun world request m text r =>
    if inInstalledPackage request.source m.path then (r, none) else read world m text r

end Inventory.Npm
