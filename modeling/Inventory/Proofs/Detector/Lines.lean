import Inventory.Detector.GoMod
import Inventory.Detector.Pip
import Inventory.Proofs.Component.Identity
import Inventory.Proofs.Recorder.Passes
import Inventory.Proofs.Text.Split
import Inventory.Proofs.Text.Trim

/-! Manifests that are read line by line. What a line requires always has a name and a version that
are not blank: no line ends the reading, and each is recorded whatever the others say. -/
namespace Inventory

open FileRecorder (Registration writeAll registerCall writeAll_append)

variable {line : List Char}

theorem Component.checked_eq_ok {c : Component}
    (shown : ∀ f ∈ c.identity, Text.isBlank f.2 = false) : c.checked = .ok c := by
  have passes := Component.toOption_checked_eq_some_iff.mpr ⟨shown, rfl⟩
  cases checked : c.checked with
  | ok c' =>
    rw [checked] at passes
    exact congrArg _ (Option.some.inj passes)
  | error e =>
    rw [checked] at passes
    cases passes

/-- A word is no blank text. -/
theorem Text.isBlank_of_mem_words {word : List Char} (member : word ∈ Text.words line) :
    Text.isBlank (String.ofList word) = false := by
  obtain ⟨piece, some⟩ := List.mem_filter.mp member
  have trimmed : Trimmed word :=
    trimmed_of_unbroken fun c among => eq_false_of_mem_splitWhen piece among
  exact isBlank_ofList_of_trimmed trimmed fun none => by simp [none] at some

namespace Pip

open Text

def said (line : List Char) : List (Except String Registration) :=
  match requirement? line with
  | some (.pinned name version) => [.ok ⟨{ component := .pip name version none none },
      { explicit := true }⟩]
  | some (.unpinned text) => [.error text]
  | some .option | none => []

/-- What a line pins was looked at before: neither the name nor the version is blank. -/
theorem isBlank_of_pinned {name version : String}
    (pinned : requirement? line = some (.pinned name version)) :
    isBlank name = false ∧ isBlank version = false := by
  unfold requirement? at pinned
  dsimp only at pinned
  split at pinned
  · cases pinned
  · split at pinned
    · cases pinned
    · split at pinned
      · cases pinned
      · split at pinned
        · cases pinned
        next some =>
          simp only [Bool.or_eq_true, List.isEmpty_iff, not_or] at some
          cases pinned
          exact ⟨isBlank_ofList_of_trimmed (trimmed_trim _) some.1.1.1,
            isBlank_ofList_of_trimmed (trimmed_trim _) some.1.1.2⟩

theorem checked_of_pinned {name version : String}
    (pinned : requirement? line = some (.pinned name version)) :
    (Component.pip name version none none).checked = .ok (.pip name version none none) := by
  obtain ⟨named, versioned⟩ := isBlank_of_pinned pinned
  exact Component.checked_eq_ok (by simp [Component.identity, named, versioned])

theorem recordLines_cons (r : FileRecorder) (line : List Char) (rest : List (List Char)) :
    recordLines r (line :: rest) = recordLines (writeAll registerCall (said line) r) rest := by
  rw [recordLines, said]
  cases required : requirement? line with
  | none => rfl
  | some q =>
    cases q with
    | pinned name version =>
      dsimp only
      rw [checked_of_pinned required]
      rfl
    | unpinned text => rfl
    | option => rfl

theorem recordLines_eq (r : FileRecorder) (lines : List (List Char)) :
    recordLines r lines = (writeAll registerCall (lines.flatMap said) r, none) := by
  induction lines generalizing r with
  | nil => rfl
  | cons line rest ih =>
    rw [recordLines_cons, ih, List.flatMap_cons, writeAll_append]

theorem read_eq (m : Manifest) (text : String) (r : FileRecorder) :
    read m text r = (writeAll registerCall ((lines text.toList).flatMap said) r, none) :=
  recordLines_eq r _

end Pip

namespace GoMod

open Text

def said (line : List Char) : List (Except String Registration) :=
  match requirement? line with
  | some q => [.ok ⟨{ component := .go q.path q.version none }, { explicit := !q.indirect }⟩]
  | none => [.error (String.ofList line)]

theorem isBlank_of_requirement? {q : Requirement} (required : requirement? line = some q) :
    isBlank q.path = false ∧ isBlank q.version = false := by
  unfold requirement? at required
  split at required
  next path version two =>
    have first : path ∈ words (upTo ['/', '/'] line) := by simp [two]
    have second : version ∈ words (upTo ['/', '/'] line) := by simp [two]
    cases required
    exact ⟨isBlank_of_mem_words first, isBlank_of_mem_words second⟩
  next => cases required

theorem checked_of_requirement? {q : Requirement} (required : requirement? line = some q) :
    (Component.go q.path q.version none).checked = .ok (.go q.path q.version none) := by
  obtain ⟨named, versioned⟩ := isBlank_of_requirement? required
  exact Component.checked_eq_ok (by simp [Component.identity, named, versioned])

theorem recordLines_cons (r : FileRecorder) (line : List Char) (rest : List (List Char)) :
    recordLines r (line :: rest) = recordLines (writeAll registerCall (said line) r) rest := by
  rw [recordLines, said]
  cases required : requirement? line with
  | none => rfl
  | some q =>
    dsimp only
    rw [checked_of_requirement? required]
    rfl

theorem recordLines_eq (r : FileRecorder) (lines : List (List Char)) :
    recordLines r lines = (writeAll registerCall (lines.flatMap said) r, none) := by
  induction lines generalizing r with
  | nil => rfl
  | cons line rest ih =>
    rw [recordLines_cons, ih, List.flatMap_cons, writeAll_append]

theorem read_eq (world : FileTree.World) (m : Manifest) (text : String) (r : FileRecorder) :
    read world m text r = (m.addSibling world "go.sum"
      (writeAll registerCall ((requirementLines false (lines text.toList)).flatMap said) r),
      none) := by
  rw [read, recordLines_eq]

end GoMod

end Inventory
