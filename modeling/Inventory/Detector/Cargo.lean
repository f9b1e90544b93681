import Inventory.Detector.Manifest
import Inventory.Toml.Decode
import Inventory.Toml.Reader

/-! Lock files of Cargo. Packages without a source are the workspace's own: they are not reported,
but what they depend on is explicitly referenced. -/
namespace Inventory.Cargo

structure Package where
  name : String
  version : String
  source : Option String
  /-- Each a name, which a version and a source may follow. -/
  dependencies : List String
  deriving DecidableEq, Repr

def Package.isLocal (p : Package) : Bool := p.source.isNone
def Package.key (p : Package) : String × String := (p.name, p.version)

def package? (value : Toml) : Option Package := do
  let f ← value.fields? ["name", "version", "source", "dependencies"]
  return {
    name := ← f.required "name" Toml.string?
    version := ← f.required "version" Toml.string?
    source := ← f.optional "source" Toml.string?
    dependencies := ← f.defaulted "dependencies" (Toml.list? Toml.string?) [] }

def packages? (text : String) : Option (List Package) := do
  let f ← (← Toml.read? text).fields? ["package"]
  f.defaulted "package" (Toml.list? package?) []

/-- The package that a dependency names, by its place. A name alone must be the name of one package
only; with a version, the first package of that name and version is taken. -/
def resolve (packages : List Package) (dependency : String) : Option Nat :=
  match (Text.words dependency.toList).map String.ofList with
  | [] => none
  | name :: rest =>
    let candidates := packages.zipIdx.filter (·.1.name == name)
    match rest with
    | [] => match candidates with
      | [(_, i)] => some i
      | _ => none
    | version :: _ => (candidates.find? (·.1.version == version)).map (·.2)

/-- The component that a package is reported as. -/
def component? (p : Package) : Option Component :=
  p.source.bind fun source => (Component.cargo p.name p.version (some source)).checked.toOption

/-- The id under which packages of this name and version are reported. -/
def idOf? (packages : List Package) (key : String × String) : Option String :=
  (packages.find? fun p => p.key == key && (component? p).isSome).bind fun p =>
    (component? p).map (·.id)

/-- The dependencies of a package that no package is found for. -/
def unresolved (packages : List Package) (p : Package) : List String :=
  p.dependencies.filter fun d => (resolve packages d).isNone

/-- The places of the packages that local packages depend on. -/
def explicitPlaces (packages : List Package) : List Nat :=
  (packages.filter (·.isLocal)).flatMap fun p => p.dependencies.filterMap (resolve packages)

/-- Reports one package, unless it is local. -/
def report (explicit : List Nat) (r : FileRecorder) (entry : Package × Nat) : FileRecorder :=
  let (p, place) := entry
  if p.isLocal then r
  else match component? p with
    | none => r.addFailure (p.name ++ " " ++ p.version)
    | some c => r.register { component := c }
        { explicit := explicit.contains place, development := some false }

/-- Links a reported package to one that it depends on. -/
def link (packages : List Package) (parent : String) (r : FileRecorder) (dependency : String) :
    FileRecorder :=
  match (resolve packages dependency).bind (packages[·]?) with
  | none => r.addFailure dependency
  | some child =>
    match (idOf? packages child.key).bind r.component? with
    | none => r
    | some c => r.register { component := c } { parent := some parent }

def linkAll (packages : List Package) (r : FileRecorder) (p : Package) : FileRecorder :=
  if p.isLocal then r
  else match idOf? packages p.key with
    | none => r
    | some parent => p.dependencies.foldl (link packages parent) r

/-- Records the packages of a lock file: first all of them, then their links. -/
def record (packages : List Package) (r : FileRecorder) : FileRecorder :=
  let r := ((packages.filter (·.isLocal)).flatMap (unresolved packages)).foldl (·.addFailure ·) r
  let r := packages.zipIdx.foldl (report (explicitPlaces packages)) r
  packages.foldl (linkAll packages) r

def read (world : FileTree.World) : Manifest.Reader := fun m text r =>
  match packages? text with
  | none => (r, some m.notParsed)
  | some packages => (m.addSibling world "Cargo.toml" (record packages r), none)

def patterns : List String := ["Cargo.lock"]

def detector : Detector where
  id := "Cargo"
  version := 2
  categories := [.cargo]
  ecosystems := [.cargo]
  run := Manifest.run patterns "lockFiles" fun world _ => read world

end Inventory.Cargo
