import Inventory.Proofs.Detector.Bounds
import Inventory.Proofs.Detector.BuiltIn
import Inventory.Proofs.Detector.Lines

/-! Readers that fail. A lock file is refused before anything of it is recorded, and a manifest that
is read line by line is never refused. -/
namespace Inventory

open FileRecorder (writeAll registerCall)

namespace Manifest

variable {m : Manifest} {text reason : String}

def Reader.IsAtomic (read : Reader) : Prop :=
  ∀ ⦃m text r f reason⦄, read m text r = (f, some reason) → f = r

/-- All that is left of a failed reading is the failure that says so. -/
theorem Reader.IsAtomic.readInto {read : Reader} (atomic : read.IsAtomic)
    (content : m.text = some text) {r f : FileRecorder}
    (failed : read m text r = (f, some reason)) :
    m.readInto read r = (r.addFailure (m.failure reason), true) := by
  rw [Manifest.readInto, content]
  dsimp only
  rw [failed, atomic failed]

end Manifest

theorem Cargo.isAtomic_read (world : FileTree.World) : (Cargo.read world).IsAtomic := by
  intro m text r f reason failed
  rw [Cargo.read] at failed
  cases packages : Cargo.packages? text with
  | none =>
    rw [packages] at failed
    cases failed
    rfl
  | some packages' =>
    rw [packages] at failed
    cases failed

theorem Npm.isAtomic_read (world : FileTree.World) : (Npm.read world).IsAtomic := by
  intro m text r f reason failed
  rw [Npm.read] at failed
  cases lock : Npm.lock? text with
  | none =>
    rw [lock] at failed
    cases failed
    rfl
  | some lock' =>
    rw [lock] at failed
    dsimp only at failed
    split at failed
    · cases failed
    · cases failed
      rfl

namespace ManifestDetector

variable {d : ManifestDetector}

theorem isAtomic_of_mem_builtIn (member : d ∈ builtIn) (world : FileTree.World)
    (request : Request) : (d.read world request).IsAtomic := by
  simp only [builtIn, List.mem_cons, List.not_mem_nil, or_false] at member
  rcases member with rfl | rfl | rfl | rfl
  · exact Cargo.isAtomic_read world
  · intro m text r f reason failed
    change (if _ then _ else _) = _ at failed
    split at failed
    · cases failed
    · exact Npm.isAtomic_read world failed
  · intro m text r f reason failed
    rw [show pip.read world request m text r = Pip.read m text r from rfl, Pip.read_eq] at failed
    cases failed
  · intro m text r f reason failed
    rw [show goMod.read world request m text r = GoMod.read world m text r from rfl,
      GoMod.read_eq] at failed
    cases failed

/-- Whatever a manifest holds, it is read to the end of its text or not at all. No place is looked
up that is not there. A reader that fails leaves nothing but the failure that says so; and one that
goes line by line does not fail, since what a line requires is a component, so that each line is
recorded whatever stands in front of it. -/
theorem builtIn_all_or_nothing :
    (∀ (world : FileTree.World) (m : Manifest) (text : String) (r : FileRecorder),
      Cargo.InBounds.read world m text r = some (Cargo.read world m text r) ∧
      Npm.InBounds.read world m text r = some (Npm.read world m text r) ∧
      Pip.InBounds.read m text r = some (Pip.read m text r) ∧
      GoMod.InBounds.read world m text r = some (GoMod.read world m text r)) ∧
    (∀ d ∈ builtIn, ∀ (world : FileTree.World) (request : Request) (m : Manifest) (text : String)
      (r f : FileRecorder) (reason : String), m.text = some text →
      d.read world request m text r = (f, some reason) →
        f = r ∧ m.readInto (d.read world request) r = (r.addFailure (m.failure reason), true)) ∧
    (∀ (m : Manifest) (text : String) (r : FileRecorder), Pip.read m text r =
      (writeAll registerCall ((Text.lines text.toList).flatMap Pip.said) r, none)) ∧
    (∀ (world : FileTree.World) (m : Manifest) (text : String) (r : FileRecorder),
      GoMod.read world m text r = (m.addSibling world "go.sum" (writeAll registerCall
        ((GoMod.requirementLines false (Text.lines text.toList)).flatMap GoMod.said) r), none)) ∧
    (∀ line name version, Pip.requirement? line = some (.pinned name version) →
      (Component.pip name version none none).checked = .ok (.pip name version none none)) ∧
    ∀ line q, GoMod.requirement? line = some q →
      (Component.go q.path q.version none).checked = .ok (.go q.path q.version none) := by
  refine ⟨fun world m text r => ⟨Cargo.InBounds.read_eq world m text r,
    Npm.InBounds.read_eq world m text r, Pip.InBounds.read_eq m text r,
    GoMod.InBounds.read_eq world m text r⟩, ?_, Pip.read_eq, GoMod.read_eq, ?_, ?_⟩
  · intro d member world request m text r f reason content failed
    have atomic := isAtomic_of_mem_builtIn member world request
    exact ⟨atomic failed, atomic.readInto content failed⟩
  · exact fun line name version => Pip.checked_of_pinned
  · exact fun line q => GoMod.checked_of_requirement?

/-- A lock file that does not say its version leaves one failure. -/
theorem builtIn_all_or_nothing_versionless :
    let world : FileTree.World := ⟨.folder [], []⟩
    let m : Manifest := ⟨"./package-lock.json", "package-lock.json", some "{}"⟩
    let reason := "unsupported lockfileVersion None"
    npm.read world { source := "." } m "{}" {} = ({}, some reason) ∧
      m.readInto (npm.read world { source := "." }) {} =
        (({} : FileRecorder).addFailure ("./package-lock.json: " ++ reason), true) := by
  intro world m reason
  have outside : Npm.inInstalledPackage "." m.path = false := by decide +kernel
  have failed : npm.read world { source := "." } m "{}" {} = ({}, some reason) := by
    change (if Npm.inInstalledPackage "." m.path then _ else Npm.read world m "{}" {}) = _
    rw [outside]
    rfl
  have text : m.failure reason = "./package-lock.json: " ++ reason := by decide +kernel
  have left := (builtIn_all_or_nothing.2.1 npm (by simp [builtIn]) world { source := "." } m "{}"
    {} {} reason rfl failed).2
  exact ⟨failed, text ▸ left⟩

end ManifestDetector

end Inventory
