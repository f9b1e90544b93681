import Inventory.Detector.Registry
import Inventory.Proofs.Detector.Manifest
import Inventory.Proofs.Detector.Script

/-! What the built-in detectors have in common. Each reads a manifest by calls on the recorder of
that manifest and by looks at it, and apart from the manifest it minds the folder of the request and
whether one further file is there. -/
namespace Inventory

open FileRecorder (Scripted)

structure ManifestDetector where
  detector : Detector
  patterns : List String
  countKey : String
  /-- The file beside a manifest that is related to it. -/
  sibling : Option String
  read : FileTree.World → Request → Manifest.Reader
  run_eq : detector.run = Manifest.run patterns countKey read
  marked : ∀ pattern ∈ patterns, Manifest.IsMarked pattern
  scripted : ∀ world request, (read world request).IsScripted
  confined : ∀ {world world' : FileTree.World} {request request' : Request} {m : Manifest},
    request'.source = request.source →
    Manifest.hasSibling world' sibling m.path = Manifest.hasSibling world sibling m.path →
    read world' request' m = read world request m

namespace Cargo

theorem scripted_report (explicit : List Nat) (entry : Package × Nat) :
    Scripted (report explicit · entry) := by
  obtain ⟨p, place⟩ := entry
  simp only [report]
  cases p.isLocal with
  | true => exact .nothing
  | false =>
    cases component? p with
    | none => exact .addFailure _
    | some c => exact .register _ _

theorem scripted_link (packages : List Package) (parent dependency : String) :
    Scripted (link packages parent · dependency) := by
  unfold link
  cases (resolve packages dependency).bind (packages[·]?) with
  | none => exact .addFailure _
  | some child =>
    dsimp only
    cases idOf? packages child.key with
    | none => exact .nothing
    | some id =>
      refine .look id fun c => ?_
      cases c with
      | none => exact ⟨_, .nothing, fun r seen => by simp only [Option.bind_some, seen]⟩
      | some c =>
        refine ⟨_, .register { component := c } { parent := some parent }, fun r seen => ?_⟩
        simp only [Option.bind_some, seen]

theorem scripted_linkAll (packages : List Package) (p : Package) :
    Scripted (linkAll packages · p) := by
  unfold linkAll
  cases p.isLocal with
  | true => exact .nothing
  | false =>
    cases idOf? packages p.key with
    | none => exact .nothing
    | some parent => exact .foldl (scripted_link packages parent) _

theorem scripted_record (packages : List Package) : Scripted (record packages) :=
  ((Scripted.foldl .addFailure _).comp (.foldl (scripted_report _) _)).comp
    (.foldl (scripted_linkAll packages) _)

theorem scripted_read (world : FileTree.World) : (read world).IsScripted := by
  intro m text
  unfold read
  cases packages? text with
  | none => exact ⟨_, _, .nothing, fun _ => rfl⟩
  | some packages =>
    exact ⟨_, _, (scripted_record packages).comp (m.scripted_addSibling world _), fun _ => rfl⟩

end Cargo

namespace Npm

theorem scripted_report (lock : Lock) (entry : String × Entry) :
    Scripted (report lock · entry) := by
  obtain ⟨path, e⟩ := entry
  simp only [report]
  cases isInstalled path e with
  | false => exact .nothing
  | true =>
    cases component? path e with
    | none => exact .addFailure _
    | some c => exact .register _ _

theorem scripted_link (lock : Lock) (path parent name : String) :
    Scripted (link lock path parent · name) := by
  unfold link
  cases resolve lock.packages.contains path.toList name with
  | none => exact .nothing
  | some childPath =>
    simp only [Option.bind_eq_bind, Option.bind_some]
    cases idOf? lock childPath with
    | none => exact .nothing
    | some id =>
      -- What is looked up is whether the package has been reported.
      refine .look id fun c => ?_
      cases c with
      | none => exact ⟨_, .nothing, fun r seen => by simp only [Option.bind_some, seen]; rfl⟩
      | some c =>
        cases lock.packages.get? childPath with
        | none => exact ⟨_, .nothing, fun r seen => by simp only [Option.bind_some, seen]; rfl⟩
        | some e =>
          refine ⟨_, .register { component := c }
            { parent := some parent, development := some e.development }, fun r seen => ?_⟩
          simp only [Option.bind_some, seen]
          rfl

theorem scripted_linkAll (lock : Lock) (entry : String × Entry) :
    Scripted (linkAll lock · entry) := by
  unfold linkAll
  cases idOf? lock entry.1 with
  | none => exact .nothing
  | some parent => exact .foldl (scripted_link lock entry.1 parent) _

theorem scripted_record (lock : Lock) : Scripted (record lock) :=
  (Scripted.foldl (scripted_report lock) _).comp (.foldl (scripted_linkAll lock) _)

theorem scripted_read (world : FileTree.World) : (read world).IsScripted := by
  intro m text
  unfold read
  cases lock? text with
  | none => exact ⟨_, _, .nothing, fun _ => rfl⟩
  | some lock =>
    by_cases known : lock.version = some 2 ∨ lock.version = some 3
    · refine ⟨_, none, (scripted_record lock).comp (m.scripted_addSibling world "package.json"), ?_⟩
      intro r
      simp [known]
    · refine ⟨_, some ("unsupported lockfileVersion " ++ versionText lock.version), .nothing, ?_⟩
      intro r
      simp only [not_or] at known
      simp [known]

end Npm

namespace Pip

theorem scripted_recordLines (lines : List (List Char)) :
    ∃ f reason, Scripted f ∧ ∀ r, recordLines r lines = (f r, reason) := by
  induction lines with
  | nil => exact ⟨_, _, .nothing, fun _ => rfl⟩
  | cons line lines ih =>
    obtain ⟨f, reason, scripted, runs⟩ := ih
    simp only [recordLines]
    match requirement? line with
    | some (.pinned name version) =>
      simp only
      cases (Component.pip name version none none).checked with
      | ok c => exact ⟨_, _, (Scripted.register _ _).comp scripted, fun r => runs _⟩
      | error e => exact ⟨_, _, .nothing, fun _ => rfl⟩
    | some (.unpinned text) =>
      exact ⟨_, _, (Scripted.addFailure text).comp scripted, fun r => runs _⟩
    | some .option | none => exact ⟨_, _, scripted, runs⟩

end Pip

namespace GoMod

theorem scripted_recordLines (lines : List (List Char)) :
    ∃ f reason, Scripted f ∧ ∀ r, recordLines r lines = (f r, reason) := by
  induction lines with
  | nil => exact ⟨_, _, .nothing, fun _ => rfl⟩
  | cons line lines ih =>
    obtain ⟨f, reason, scripted, runs⟩ := ih
    simp only [recordLines]
    cases requirement? line with
    | none => exact ⟨_, _, (Scripted.addFailure _).comp scripted, fun r => runs _⟩
    | some q =>
      simp only
      cases (Component.go q.path q.version none).checked with
      | ok c => exact ⟨_, _, (Scripted.register _ _).comp scripted, fun r => runs _⟩
      | error e => exact ⟨_, _, .nothing, fun _ => rfl⟩

theorem scripted_read (world : FileTree.World) : (read world).IsScripted := by
  intro m text
  obtain ⟨f, reason, scripted, runs⟩ :=
    scripted_recordLines (requirementLines false (Text.lines text.toList))
  unfold read
  simp only [runs]
  cases reason with
  | none => exact ⟨_, _, scripted.comp (m.scripted_addSibling world "go.sum"), fun _ => rfl⟩
  | some reason => exact ⟨_, _, scripted, fun _ => rfl⟩

end GoMod

namespace ManifestDetector

open Manifest (IsMarked hasSibling)

theorem marked_singleton {pattern : String} (marked : IsMarked pattern) :
    ∀ p ∈ [pattern], IsMarked p := fun _ member => List.mem_singleton.mp member ▸ marked

def cargo : ManifestDetector where
  detector := Cargo.detector
  patterns := Cargo.patterns
  countKey := "lockFiles"
  sibling := some "Cargo.toml"
  read := fun world _ => Cargo.read world
  run_eq := rfl
  marked := marked_singleton ⟨'C', by decide, by decide, by decide⟩
  scripted world _ := Cargo.scripted_read world
  confined := by
    intro world world' request request' m _ same
    funext text r
    unfold Cargo.read
    cases Cargo.packages? text with
    | none => rfl
    | some packages => simp only [Manifest.addSibling_eq, same]

def npm : ManifestDetector where
  detector := Npm.detector
  patterns := Npm.patterns
  countKey := "lockFiles"
  sibling := some "package.json"
  read := fun world request m text r =>
    if Npm.inInstalledPackage request.source m.path then (r, none) else Npm.read world m text r
  run_eq := rfl
  marked := marked_singleton ⟨'p', by decide, by decide, by decide⟩
  scripted world request m text := by
    beta_reduce
    cases Npm.inInstalledPackage request.source m.path with
    | true => exact ⟨_, _, .nothing, fun _ => rfl⟩
    | false => exact Npm.scripted_read world m text
  confined := by
    intro world world' request request' m source same
    funext text r
    have read : Npm.read world' m text r = Npm.read world m text r := by
      unfold Npm.read
      cases Npm.lock? text with
      | none => rfl
      | some lock => simp only [Manifest.addSibling_eq, same]
    rw [source, read]

def pip : ManifestDetector where
  detector := Pip.detector
  patterns := Pip.patterns
  countKey := "requirementFiles"
  sibling := none
  read := fun _ _ => Pip.read
  run_eq := rfl
  marked := marked_singleton ⟨'r', by decide, by decide, by decide⟩
  scripted _ _ _ text := Pip.scripted_recordLines (Text.lines text.toList)
  confined _ _ := rfl

def goMod : ManifestDetector where
  detector := GoMod.detector
  patterns := GoMod.patterns
  countKey := "goModFiles"
  sibling := some "go.sum"
  read := fun world _ => GoMod.read world
  run_eq := rfl
  marked := marked_singleton ⟨'g', by decide, by decide, by decide⟩
  scripted world _ := GoMod.scripted_read world
  confined := by
    intro world world' request request' m _ same
    funext text r
    unfold GoMod.read
    split
    next => simp only [Manifest.addSibling_eq, same]
    next => rfl

def builtIn : List ManifestDetector := [cargo, npm, pip, goMod]

theorem map_builtIn : builtIn.map (·.detector) = Detector.builtIn := rfl

end ManifestDetector

end Inventory
