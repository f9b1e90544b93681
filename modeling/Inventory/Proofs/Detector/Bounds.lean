import Inventory.Detector.GoMod
import Inventory.Detector.Npm
import Inventory.Detector.Pip
import Inventory.Proofs.Detector.Cargo.LockFile
import Inventory.Proofs.Text.Slice

/-! Reading manifests with an eye on every place. A text is sliced at the byte where something was
found in it, and a list or a map is looked up at a place that was found before. The readers here
give `none` if such a place is not there, and they never do: they read what the readers of the
detectors read. -/
namespace Inventory

namespace Pip.InBounds

open Text

def requirement (line : List Char) : Option (Option Requirement) := do
  let line ← slicedUpTo? ['#'] line
  let line ← slicedUpTo? [';'] line
  let line := trim line
  if line.isEmpty then return none
  else if startsWith ['-'] line then return some .option
  else match cutAt? ['=', '='] line with
    | none => return some (.unpinned (String.ofList line))
    | some (spec, version) =>
      let name := trim (← slicedUpTo? ['['] spec)
      let version := trim version
      if name.isEmpty || version.isEmpty || version.contains ',' || version.contains '*' then
        return some (.unpinned (String.ofList line))
      else return some (.pinned (String.ofList name) (String.ofList version))

def recordLines (r : FileRecorder) : List (List Char) → Option (FileRecorder × Option String)
  | [] => some (r, none)
  | line :: rest => do
    match ← requirement line with
    | some (.pinned name version) =>
      match (Component.pip name version none none).checked with
      | .ok c => recordLines (r.register { component := c } { explicit := true }) rest
      | .error e => return (r, some e.message)
    | some (.unpinned text) => recordLines (r.addFailure text) rest
    | some .option | none => recordLines r rest

def read (_ : Manifest) (text : String) (r : FileRecorder) :
    Option (FileRecorder × Option String) :=
  recordLines r (lines text.toList)

theorem requirement_eq (line : List Char) : requirement line = some (requirement? line) := by
  unfold requirement requirement?
  simp only [slicedUpTo?_eq, Option.bind_eq_bind, Option.bind_some]
  split
  · rfl
  · split
    · rfl
    · cases cutAt? ['=', '='] (trim (upTo [';'] (upTo ['#'] line))) with
      | none => rfl
      | some cut =>
        dsimp only
        split
        · rfl
        · rfl

theorem recordLines_eq (r : FileRecorder) (lines : List (List Char)) :
    recordLines r lines = some (Pip.recordLines r lines) := by
  induction lines generalizing r with
  | nil => rfl
  | cons line rest ih =>
    rw [recordLines, Pip.recordLines, requirement_eq]
    cases requirement? line with
    | none => exact ih r
    | some q =>
      cases q with
      | pinned name version =>
        dsimp only [Option.bind_eq_bind, Option.bind_some]
        cases (Component.pip name version none none).checked with
        | ok c => exact ih _
        | error e => rfl
      | unpinned text => exact ih _
      | option => exact ih r

theorem read_eq (m : Manifest) (text : String) (r : FileRecorder) :
    read m text r = some (Pip.read m text r) := recordLines_eq r _

end Pip.InBounds

namespace GoMod.InBounds

open Text

def requirement (line : List Char) : Option (Option Requirement) := do
  let (body, comment) ← slicedAround? ['/', '/'] line
  match words body with
  | [path, version] => return some ⟨String.ofList path, String.ofList version,
      (comment.map fun c => (splitAt ';' c).any (trim · == "indirect".toList)).getD false⟩
  | _ => return none

def recordLines (r : FileRecorder) : List (List Char) → Option (FileRecorder × Option String)
  | [] => some (r, none)
  | line :: rest => do
    match ← requirement line with
    | none => recordLines (r.addFailure (String.ofList line)) rest
    | some q =>
      match (Component.go q.path q.version none).checked with
      | .ok c => recordLines (r.register { component := c } { explicit := !q.indirect }) rest
      | .error e => return (r, some e.message)

def read (world : FileTree.World) (m : Manifest) (text : String) (r : FileRecorder) :
    Option (FileRecorder × Option String) := do
  match ← recordLines r (requirementLines false (lines text.toList)) with
  | (r, none) => return (m.addSibling world "go.sum" r, none)
  | (r, some reason) => return (r, some reason)

theorem requirement_eq (line : List Char) : requirement line = some (requirement? line) := by
  unfold requirement requirement?
  simp only [slicedAround?_eq, Option.bind_eq_bind, Option.bind_some]
  have nothing : (splitAt ';' []).any (trim · == "indirect".toList) = false := by decide
  rcases words (upTo ['/', '/'] line) with _ | ⟨path, _ | ⟨version, _ | ⟨more, rest⟩⟩⟩
  · rfl
  · rfl
  · cases cutAt? ['/', '/'] line with
    | none =>
      simp only [Option.map_none, Option.getD_none, nothing]
      rfl
    | some cut => rfl
  · rfl

theorem recordLines_eq (r : FileRecorder) (lines : List (List Char)) :
    recordLines r lines = some (GoMod.recordLines r lines) := by
  induction lines generalizing r with
  | nil => rfl
  | cons line rest ih =>
    rw [recordLines, GoMod.recordLines, requirement_eq]
    cases requirement? line with
    | none => exact ih _
    | some q =>
      dsimp only [Option.bind_eq_bind, Option.bind_some]
      cases (Component.go q.path q.version none).checked with
      | ok c => exact ih _
      | error e => rfl

theorem read_eq (world : FileTree.World) (m : Manifest) (text : String) (r : FileRecorder) :
    read world m text r = some (GoMod.read world m text r) := by
  rw [read, recordLines_eq, GoMod.read]
  rcases GoMod.recordLines r (requirementLines false (lines text.toList)) with ⟨r, _ | reason⟩
  · rfl
  · rfl

end GoMod.InBounds

namespace Npm.InBounds

open Text

def packageName (path : String) : Option String :=
  match lastPosition? (utf8 folder) (utf8 path.toList) with
  | some i => (behind? path.toList (i + (utf8 folder).length)).map String.ofList
  | none => some path

def parentPath (path : List Char) : Option (List Char) :=
  match lastPosition? (utf8 innerFolder) (utf8 path) with
  | some i => before? path i
  | none => some []

theorem packageName_eq (path : String) : packageName path = some (Npm.packageName path) := by
  have literal : folder ≠ [] := by decide
  rw [packageName, lastPosition?_utf8 literal, Npm.packageName]
  cases cut : cutAtLast? folder path.toList with
  | none => rfl
  | some p =>
    obtain ⟨front, name⟩ := p
    dsimp only [Option.map_some]
    rw [eq_append_of_cutAtLast? cut, behind?_append, Option.map_some]

theorem parentPath_eq (path : List Char) : parentPath path = some (Npm.parentPath path) := by
  have literal : innerFolder ≠ [] := by decide
  rw [parentPath, lastPosition?_utf8 literal, Npm.parentPath]
  cases cut : cutAtLast? innerFolder path with
  | none => rfl
  | some p =>
    dsimp only [Option.map_some]
    rw [eq_append_of_cutAtLast? cut, before?_append]
    rfl

def resolve (installed : String → Bool) (base : List Char) (name : String) :
    Option (Option String) :=
  if installed (candidate base name) then some (some (candidate base name))
  else if _top : base = [] then some none
  else
    match _up : parentPath base with
    | some up => resolve installed up name
    | none => none
termination_by base.length
decreasing_by
  rw [parentPath_eq, Option.some.injEq] at _up
  exact _up ▸ length_parentPath_lt _top

def component (path : String) (e : Entry) : Option (Option Component) := do
  let name ← match e.name with
    | some name => some name
    | none => packageName path
  return (Component.npm name (e.version.getD "") e.integrity).checked.toOption

def isExplicit (lock : Lock) (path : String) : Option Bool := do
  if (← parentPath path.toList).isEmpty then return (rootNames lock).contains (← packageName path)
  else return false

def report (lock : Lock) (r : FileRecorder) (entry : String × Entry) : Option FileRecorder := do
  let (path, e) := entry
  if !isInstalled path e then return r
  else match ← component path e with
    | none => return r.addFailure path
    | some c =>
      let explicit ← isExplicit lock path
      return r.register { component := c } { explicit, development := some e.development }

def link (lock : Lock) (path parent : String) (r : FileRecorder) (name : String) :
    Option FileRecorder := do
  match ← resolve lock.packages.contains path.toList name with
  | none => return r
  | some childPath =>
    match (idOf? lock childPath).bind r.component? with
    | none => return r
    | some c =>
      let e ← lock.packages.get? childPath
      return r.register { component := c }
        { parent := some parent, development := some e.development }

def linkAll (lock : Lock) (r : FileRecorder) (entry : String × Entry) : Option FileRecorder :=
  match idOf? lock entry.1 with
  | none => some r
  | some parent => entry.2.allDependencies.foldlM (link lock entry.1 parent) r

def record (lock : Lock) (r : FileRecorder) : Option FileRecorder := do
  let r ← lock.packages.entries.foldlM (report lock) r
  lock.packages.entries.foldlM (linkAll lock) r

def read (world : FileTree.World) (m : Manifest) (text : String) (r : FileRecorder) :
    Option (FileRecorder × Option String) :=
  match lock? text with
  | none => some (r, some m.notParsed)
  | some lock =>
    if lock.version = some 2 || lock.version = some 3 then do
      return (m.addSibling world "package.json" (← record lock r), none)
    else some (r, some ("unsupported lockfileVersion " ++ versionText lock.version))

theorem resolve_eq (installed : String → Bool) (base : List Char) (name : String) :
    resolve installed base name = some (Npm.resolve installed base name) := by
  induction length : base.length using Nat.strongRecOn generalizing base with
  | _ size ih =>
    subst length
    rw [resolve, Npm.resolve]
    split
    next => rfl
    next =>
      split
      next => rfl
      next below =>
        split
        next up climb =>
          rw [parentPath_eq, Option.some.injEq] at climb
          exact climb ▸ ih _ (length_parentPath_lt below) (Npm.parentPath base) rfl
        next stuck =>
          rw [parentPath_eq] at stuck
          cases stuck

theorem component_eq (path : String) (e : Entry) :
    component path e = some (component? path e) := by
  rw [component, component?, packageName_eq]
  cases e.name <;> rfl

theorem isExplicit_eq (lock : Lock) (path : String) :
    isExplicit lock path = some (Npm.isExplicit lock path) := by
  rw [isExplicit, parentPath_eq, packageName_eq, Npm.isExplicit]
  dsimp only [Option.bind_eq_bind, Option.bind_some]
  split
  next top =>
    rw [top]
    rfl
  next below =>
    rw [Bool.not_eq_true] at below
    rw [below]
    rfl

theorem report_eq (lock : Lock) (r : FileRecorder) (entry : String × Entry) :
    report lock r entry = some (Npm.report lock r entry) := by
  obtain ⟨path, e⟩ := entry
  rw [report, Npm.report, component_eq, isExplicit_eq]
  split
  · rfl
  · cases component? path e with
    | none => rfl
    | some c => rfl

theorem link_eq (lock : Lock) (path parent : String) (r : FileRecorder) (name : String) :
    link lock path parent r name = some (Npm.link lock path parent r name) := by
  rw [link, Npm.link, resolve_eq]
  cases Npm.resolve lock.packages.contains path.toList name with
  | none => rfl
  | some childPath =>
    cases known : (idOf? lock childPath).bind r.component? with
    | none => simp [known]
    | some c =>
      -- An id is that of a package in the lock file.
      obtain ⟨id, named, -⟩ := Option.bind_eq_some_iff.mp known
      obtain ⟨e, here, -⟩ := Option.bind_eq_some_iff.mp named
      simp [known, here]

theorem linkAll_eq (lock : Lock) (r : FileRecorder) (entry : String × Entry) :
    linkAll lock r entry = some (Npm.linkAll lock r entry) := by
  rw [linkAll, Npm.linkAll]
  cases idOf? lock entry.1 with
  | none => rfl
  | some parent =>
    dsimp only
    rw [funext fun r => funext (link_eq lock entry.1 parent r)]
    exact List.foldlM_pure

theorem record_eq (lock : Lock) (r : FileRecorder) :
    record lock r = some (Npm.record lock r) := by
  have reported : lock.packages.entries.foldlM (report lock) r =
      some (lock.packages.entries.foldl (Npm.report lock) r) := by
    rw [funext fun r => funext (report_eq lock r)]
    exact List.foldlM_pure
  rw [record, reported, funext fun r => funext (linkAll_eq lock r)]
  exact List.foldlM_pure

theorem read_eq (world : FileTree.World) (m : Manifest) (text : String) (r : FileRecorder) :
    read world m text r = some (Npm.read world m text r) := by
  rw [read, Npm.read]
  cases lock? text with
  | none => rfl
  | some lock =>
    dsimp only
    rw [record_eq]
    split
    · rfl
    · rfl

end Npm.InBounds

namespace Cargo.InBounds

def places (packages : List Package) (name : String) : List Nat :=
  (packages.zipIdx.filter (·.1.name == name)).map (·.2)

def firstOf (packages : List Package) (version : String) : List Nat → Option (Option Nat)
  | [] => some none
  | i :: rest => do
    let p ← packages[i]?
    if p.version == version then return some i else firstOf packages version rest

def resolve (packages : List Package) (dependency : String) : Option (Option Nat) :=
  match (Text.words dependency.toList).map String.ofList with
  | [] => some none
  | name :: rest =>
    match rest with
    | [] => match places packages name with
      | [i] => some (some i)
      | _ => some none
    | version :: _ => firstOf packages version (places packages name)

/-- Takes what a local package depends on into the explicit places, unless it is local too. -/
def mark (packages : List Package) (state : FileRecorder × List Nat) (dependency : String) :
    Option (FileRecorder × List Nat) := do
  match ← resolve packages dependency with
  | none => return (state.1.addFailure dependency, state.2)
  | some i =>
    let p ← packages[i]?
    if p.isLocal then return state else return (state.1, state.2 ++ [i])

def markAll (packages : List Package) (r : FileRecorder) : Option (FileRecorder × List Nat) :=
  ((packages.filter (·.isLocal)).flatMap (·.dependencies)).foldlM (mark packages) (r, [])

def link (packages : List Package) (parent : String) (r : FileRecorder) (dependency : String) :
    Option FileRecorder := do
  match ← resolve packages dependency with
  | none => return r.addFailure dependency
  | some i =>
    let child ← packages[i]?
    match (idOf? packages child.key).bind r.component? with
    | none => return r
    | some c => return r.register { component := c } { parent := some parent }

def linkAll (packages : List Package) (r : FileRecorder) (p : Package) : Option FileRecorder :=
  if p.isLocal then some r
  else match idOf? packages p.key with
    | none => some r
    | some parent => p.dependencies.foldlM (link packages parent) r

def record (packages : List Package) (r : FileRecorder) : Option FileRecorder := do
  let (r, explicit) ← markAll packages r
  packages.foldlM (linkAll packages) (packages.zipIdx.foldl (report explicit) r)

def read (world : FileTree.World) (m : Manifest) (text : String) (r : FileRecorder) :
    Option (FileRecorder × Option String) :=
  match packages? text with
  | none => some (r, some m.notParsed)
  | some packages => do return (m.addSibling world "Cargo.toml" (← record packages r), none)

variable {packages : List Package}

/-- Places that come with their packages are looked up again. -/
theorem firstOf_eq (version : String) (entries : List (Package × Nat))
    (there : ∀ entry ∈ entries, packages[entry.2]? = some entry.1) :
    firstOf packages version (entries.map (·.2)) =
      some ((entries.find? (·.1.version == version)).map (·.2)) := by
  induction entries with
  | nil => rfl
  | cons entry entries ih =>
    obtain ⟨here, there⟩ := List.forall_mem_cons.mp there
    rw [List.map_cons, firstOf, here, List.find?_cons]
    dsimp only [Option.bind_eq_bind, Option.bind_some]
    cases entry.1.version == version with
    | true => rfl
    | false => exact ih there

theorem resolve_eq (packages : List Package) (dependency : String) :
    resolve packages dependency = some (Cargo.resolve packages dependency) := by
  rw [resolve, Cargo.resolve]
  rcases (Text.words dependency.toList).map String.ofList with _ | ⟨name, _ | ⟨version, rest⟩⟩
  · rfl
  · dsimp only [places]
    generalize packages.zipIdx.filter _ = candidates
    rcases candidates with _ | ⟨entry, _ | ⟨second, more⟩⟩
    · rfl
    · rfl
    · rfl
  · refine firstOf_eq version _ fun entry member => ?_
    exact List.mem_zipIdx_iff_getElem?.mp (List.mem_filter.mp member).1

def marked (packages : List Package) (dependencies : List String) : List Nat :=
  (dependencies.filterMap (Cargo.resolve packages)).filter fun i =>
    packages[i]?.any (!·.isLocal)

theorem foldlM_mark (dependencies : List String) (r : FileRecorder) (explicit : List Nat) :
    dependencies.foldlM (mark packages) (r, explicit) = some
      ((dependencies.filter fun d => (Cargo.resolve packages d).isNone).foldl (·.addFailure ·) r,
        explicit ++ marked packages dependencies) := by
  induction dependencies generalizing r explicit with
  | nil => simp [marked]
  | cons d dependencies ih =>
    rw [List.foldlM_cons, mark, resolve_eq]
    cases found : Cargo.resolve packages d with
    | none =>
      refine (ih (r.addFailure d) explicit).trans ?_
      simp [marked, found]
    | some i =>
      obtain ⟨p, here⟩ := exists_getElem?_of_resolve found
      cases source : p.isLocal with
      | true =>
        have step := ih r explicit
        simpa [marked, found, here, source] using step
      | false =>
        have step := ih r (explicit ++ [i])
        simpa [marked, found, here, source] using step

theorem markAll_eq (packages : List Package) (r : FileRecorder) : markAll packages r =
    some (((packages.filter (·.isLocal)).flatMap (unresolved packages)).foldl (·.addFailure ·) r,
      (explicitPlaces packages).filter fun i => packages[i]?.any (!·.isLocal)) := by
  rw [markAll, foldlM_mark, List.nil_append, marked, List.filter_flatMap, List.filterMap_flatMap]
  rfl

/-- Of a package with a source it does not matter whether local packages are marked too. -/
theorem report_marked {entry : Package × Nat} (member : entry ∈ packages.zipIdx)
    (explicit : List Nat) (r : FileRecorder) :
    report (explicit.filter fun i => packages[i]?.any (!·.isLocal)) r entry =
      report explicit r entry := by
  obtain ⟨p, i⟩ := entry
  have here : packages[i]? = some p := List.mem_zipIdx_iff_getElem?.mp member
  cases source : p.isLocal with
  | true => simp [report, source]
  | false =>
    have same : (explicit.filter fun i => packages[i]?.any (!·.isLocal)).contains i =
        explicit.contains i := by
      rw [Bool.eq_iff_iff]
      simp [here, source]
    simp only [report, same]

theorem link_eq (packages : List Package) (parent : String) (r : FileRecorder)
    (dependency : String) :
    link packages parent r dependency = some (Cargo.link packages parent r dependency) := by
  rw [link, Cargo.link, resolve_eq]
  cases found : Cargo.resolve packages dependency with
  | none => rfl
  | some i =>
    obtain ⟨child, here⟩ := exists_getElem?_of_resolve found
    dsimp only [Option.bind_eq_bind, Option.bind_some]
    rw [here]
    dsimp only [Option.bind_some]
    cases (idOf? packages child.key).bind r.component? with
    | none => rfl
    | some c => rfl

theorem linkAll_eq (packages : List Package) (r : FileRecorder) (p : Package) :
    linkAll packages r p = some (Cargo.linkAll packages r p) := by
  rw [linkAll, Cargo.linkAll]
  split
  · rfl
  · cases idOf? packages p.key with
    | none => rfl
    | some parent =>
      dsimp only
      rw [funext fun r => funext (link_eq packages parent r)]
      exact List.foldlM_pure

theorem record_eq (packages : List Package) (r : FileRecorder) :
    record packages r = some (Cargo.record packages r) := by
  rw [record, markAll_eq, funext fun r => funext (linkAll_eq packages r)]
  dsimp only [Option.bind_eq_bind, Option.bind_some]
  rw [Cargo.record, List.foldl_ext _ _ _ fun r entry member =>
    report_marked member (explicitPlaces packages) r]
  exact List.foldlM_pure

theorem read_eq (world : FileTree.World) (m : Manifest) (text : String) (r : FileRecorder) :
    read world m text r = some (Cargo.read world m text r) := by
  rw [read, Cargo.read]
  cases packages? text with
  | none => rfl
  | some packages =>
    dsimp only
    rw [record_eq]
    rfl

end Cargo.InBounds

end Inventory
