import Inventory.Detector.Manifest
import Inventory.Proofs.FileTree.Content
import Inventory.Proofs.Path.Shown
import Inventory.Proofs.Wildcard

/-! Which manifests are found, and what a recorder holds once those of different locations are read
one after another: a recorder for each of them, as its reader leaves a new one. -/
namespace Inventory.Manifest

open FileTree

variable {world : World} {root : String} {patterns : List String} {exclusion : Exclusion}
  {file : String × Option String} {m : Manifest} {ms : List Manifest} {read : Reader}
  {r : Recorder}

theorem ofFile?_eq_some_iff : ofFile? patterns file = some m ↔ (m.path, m.text) = file ∧
    patterns.find? (Wildcard.matches · (Path.shown (Path.fileName m.path))) = some m.pattern := by
  unfold ofFile?
  constructor
  · intro made
    obtain ⟨pattern, first, rfl⟩ := Option.map_eq_some_iff.mp made
    exact ⟨rfl, first⟩
  · rintro ⟨rfl, first⟩
    rw [first, Option.map_some]

/-- The pattern of a manifest comes from its path. -/
theorem mem_find_iff : m ∈ find world root patterns exclusion ↔
    (m.path, m.text) ∈ world.filesBelow (fun folder => !exclusion.excludesPath (Path.shown folder))
        root ∧
      patterns.find? (Wildcard.matches · (Path.shown (Path.fileName m.path))) =
        some m.pattern := by
  rw [find, (List.mergeSort_perm _ _).mem_iff, List.mem_filterMap]
  simp only [ofFile?_eq_some_iff]
  constructor
  · rintro ⟨_, found, rfl, first⟩
    exact ⟨found, first⟩
  · rintro ⟨found, first⟩
    exact ⟨_, found, rfl, first⟩

theorem nodup_paths (wf : world.top.WellFormed) (root : String) (patterns : List String)
    (exclusion : Exclusion) : ((find world root patterns exclusion).map (·.path)).Nodup := by
  have files := World.nodup_filesBelow wf
    (fun folder => !exclusion.excludesPath (Path.shown folder)) root
  rw [find, ((List.mergeSort_perm _ _).map _).nodup_iff]
  rw [List.Nodup, List.pairwise_map] at files ⊢
  refine List.Pairwise.filterMap _ ?_ files
  intro file file' apart m made m' made'
  obtain ⟨rfl, -⟩ := ofFile?_eq_some_iff.mp made
  obtain ⟨rfl, -⟩ := ofFile?_eq_some_iff.mp made'
  exact apart

/-- A pattern with a letter that only itself matches. -/
def IsMarked (pattern : String) : Prop :=
  ∃ c ∈ pattern.toList, c ≠ '*' ∧ Text.isBlankChar c = false

theorem isBlank_location (marked : ∀ pattern ∈ patterns, IsMarked pattern)
    (found : m ∈ find world root patterns exclusion) : Text.isBlank m.location = false := by
  obtain ⟨-, first⟩ := mem_find_iff.mp found
  obtain ⟨c, member, itself, seen⟩ := marked m.pattern (List.mem_of_find?_eq_some first)
  have matched :=
    List.find?_some (p := (Wildcard.matches · (Path.shown (Path.fileName m.path)))) first
  have named : c ∈ (Path.shown (Path.fileName m.path)).toList :=
    Wildcard.mem_of_matches matched member itself
  rw [Text.isBlank, List.all_eq_false]
  refine ⟨c, Path.mem_shown_of_mem_fileName named, ?_⟩
  rw [seen]
  exact Bool.false_ne_true

def result (read : Reader) (r : Recorder) (m : Manifest) : FileRecorder :=
  (m.readInto read r.newFile).1

def filled (read : Reader) (r : Recorder) (ms : List Manifest) : Recorder :=
  { r with files := .ofList (ms.map fun m => (m.location, result read r m)) }

theorem get?_filled (distinct : (ms.map (·.location)).Nodup) {key : String} {f : FileRecorder} :
    (filled read r ms).files.get? key = some f ↔
      ∃ m ∈ ms, m.location = key ∧ result read r m = f := by
  have keys : ((ms.map fun m => (m.location, result read r m)).map (·.1)).Nodup := by
    rwa [List.map_map]
  rw [filled, SortedMap.get?_ofList keys, List.mem_map]
  simp

theorem take_eq (shown : Text.isBlank m.location = false) (fresh : r.files.get? m.location = none)
    (n : Nat) : (take read (r, n) m).1 = r.put m.location (result read r m) := by
  have created : r.create m.location =
      .ok { r with files := r.files.insertNew m.location r.newFile } := by
    rw [Recorder.create, shown]
    rfl
  have place : (r.files.insertNew m.location r.newFile).get? m.location = some r.newFile := by
    rw [SortedMap.get?_insertNew, if_pos rfl, fresh, Option.getD_none]
  have overwritten : (r.files.insertNew m.location r.newFile).insert m.location (result read r m) =
      r.files.insert m.location (result read r m) := by
    refine SortedMap.ext_get? fun key => ?_
    rw [SortedMap.get?_insert, SortedMap.get?_insert, SortedMap.get?_insertNew]
    split <;> rfl
  simp only [take, created, place, Option.getD_some]
  exact congrArg (fun files => { r with files }) overwritten

theorem foldl_take (distinct : (ms.map (·.location)).Nodup)
    (shown : ∀ m ∈ ms, Text.isBlank m.location = false)
    (fresh : ∀ m ∈ ms, r.files.get? m.location = none) (n : Nat) :
    (ms.foldl (take read) (r, n)).1 = { r with
      files := (ms.map fun m => (m.location, result read r m)).foldl
        (fun files e => files.insert e.1 e.2) r.files } := by
  induction ms generalizing r n with
  | nil => rfl
  | cons m ms ih =>
    obtain ⟨apart, distinct⟩ := List.nodup_cons.mp distinct
    obtain ⟨shownHere, shown⟩ := List.forall_mem_cons.mp shown
    obtain ⟨freshHere, fresh⟩ := List.forall_mem_cons.mp fresh
    have next : take read (r, n) m =
        (r.put m.location (result read r m), (take read (r, n) m).2) :=
      Prod.ext (take_eq shownHere freshHere n) rfl
    have fresh' : ∀ m' ∈ ms,
        (r.put m.location (result read r m)).files.get? m'.location = none := by
      intro m' member
      have other : m.location ≠ m'.location := fun same =>
        apart (List.mem_map.mpr ⟨m', member, same.symm⟩)
      rw [Recorder.put, SortedMap.get?_insert, if_neg other]
      exact fresh m' member
    rw [List.foldl_cons, next, ih distinct shown fresh']
    rfl

/-- Manifests of distinct locations, read into an empty recorder. -/
theorem foldl_take_empty (distinct : (ms.map (·.location)).Nodup)
    (shown : ∀ m ∈ ms, Text.isBlank m.location = false) (empty : r.files = .empty) (n : Nat) :
    (ms.foldl (take read) (r, n)).1 = filled read r ms := by
  have fresh : ∀ m ∈ ms, r.files.get? m.location = none := fun m _ => by
    rw [empty, SortedMap.get?_empty]
  rw [foldl_take distinct shown fresh, empty]
  rfl

end Inventory.Manifest
