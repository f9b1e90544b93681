import Inventory.Proofs.Detector.Manifest

/-! What a search for manifests lists: the files at and below a folder whose names match a pattern,
without those that an excluded folder keeps out, each once and in the order of the components of
their paths. Patterns are tried on names and folders as they are shown. -/
namespace Inventory

namespace FileTree.World

variable {world : World} {path p : String} {text : Option String} {names top : Place}
  {node : FileTree} {enter : String → Bool}

def IsLink (world : World) (path : String) : Prop :=
  ∃ target, (world.parentNode? path).toOption.bind (·.child? (Path.fileName path)) =
    some (.link target)

/-- A file below a path by the names on the way down to it, or a file at the path itself. A link to
a file is none. -/
structure FileBelow (world : World) (path : String) (names : Place) (text : Option String) :
    Prop where
  there : ∃ top, world.place? path = .ok top ∧ world.top.at? (top ++ names) = some (.file text)
  noLink : names = [] → ¬ world.IsLink path

theorem isSome_walkStart?_iff (leads : world.place? path = .ok top)
    (here : world.top.at? top = some node) :
    (world.walkStart? path).isSome = true ↔ node.isFolder = true ∨ ¬ world.IsLink path := by
  have known : world.node? path = .ok node := by
    rw [node?, leads]
    simp only [bind, Except.bind, here]
  rw [walkStart?, known, IsLink]
  cases node with
  | folder => simp [FileTree.isFolder]
  | file | link =>
    cases (world.parentNode? path).toOption.bind (·.child? (Path.fileName path)) with
    | none => simp
    | some entry => cases entry <;> simp [FileTree.isFolder]

/-- A walk comes to the files below its start that it is let in to. -/
theorem mem_filesBelow_iff_fileBelow (wf : world.top.WellFormed) :
    (p, text) ∈ world.filesBelow enter path ↔
      ∃ names, world.FileBelow path names text ∧ Entered enter path names ∧
        Path.descend path names = p := by
  rw [mem_filesBelow_iff wf]
  have starts {top names : Place} (leads : world.place? path = .ok top)
      (there : world.top.at? (top ++ names) = some (.file text)) :
      (world.walkStart? path).isSome = true ↔ (names = [] → ¬ world.IsLink path) := by
    rw [at?_append] at there
    obtain ⟨node, here, below⟩ := Option.bind_eq_some_iff.mp there
    rw [isSome_walkStart?_iff leads here]
    cases names with
    | nil =>
      cases below
      simp [FileTree.isFolder]
    | cons => simp [isFolder_of_at?_cons below]
  constructor
  · rintro ⟨some, top, names, leads, there, entered, rfl⟩
    exact ⟨names, ⟨⟨top, leads, there⟩, (starts leads there).mp some⟩, entered, rfl⟩
  · rintro ⟨names, ⟨⟨top, leads, there⟩, noLink⟩, entered, rfl⟩
    exact ⟨(starts leads there).mpr noLink, top, names, leads, there, entered, rfl⟩

theorem FileBelow.isPlain (plain : world.top.Plain) (file : world.FileBelow path names text) :
    ∀ name ∈ names, Path.IsPlain name := by
  obtain ⟨top, _, there⟩ := file.there
  exact fun name member => plain.at? there name (List.mem_append_right _ member)

end FileTree.World

namespace Manifest

open FileTree

variable {world : World} {root : String} {patterns : List String} {exclusion exclusion' : Exclusion}
  {m : Manifest} {names : Place} {text : Option String}

structure Lists (world : World) (root : String) (patterns : List String) (exclusion : Exclusion)
    (names : Place) (m : Manifest) : Prop where
  file : world.FileBelow root names m.text
  path : m.path = Path.descend root names
  /-- No folder strictly below the root on the way to the file is excluded. -/
  entered : ∀ way, way ≠ [] → way <+: names → way ≠ names →
    exclusion.excludesPath (Path.shown (Path.descend root way)) = false
  /-- The first of the patterns that the file's name matches. -/
  pattern : patterns.find?
    (Wildcard.matches · (Path.shown (names.getLast?.getD (Path.fileName root)))) = some m.pattern

theorem mem_find_iff_lists (wf : world.top.WellFormed) (plain : world.top.Plain) :
    m ∈ find world root patterns exclusion ↔
      ∃ names, Lists world root patterns exclusion names m := by
  rw [mem_find_iff, World.mem_filesBelow_iff_fileBelow wf]
  have named {names : Place} (file : world.FileBelow root names m.text) :
      Path.fileName (Path.descend root names) = names.getLast?.getD (Path.fileName root) :=
    Path.fileName_descend (file.isPlain plain)
  have entered {names : Place} :
      Entered (fun folder => !exclusion.excludesPath (Path.shown folder)) root names ↔
        ∀ way, way ≠ [] → way <+: names → way ≠ names →
          exclusion.excludesPath (Path.shown (Path.descend root way)) = false := by
    simp only [entered_iff, Bool.not_eq_true']
  constructor
  · rintro ⟨⟨names, file, way, path⟩, first⟩
    rw [← path, named file] at first
    exact ⟨names, file, path.symm, entered.mp way, first⟩
  · rintro ⟨names, file, path, way, first⟩
    refine ⟨⟨names, file, entered.mpr way, path.symm⟩, ?_⟩
    rwa [path, named file]

theorem components_of_lists (plain : world.top.Plain)
    (lists : Lists world root patterns exclusion names m) :
    Path.components m.path = Path.components root ++ names := by
  rw [lists.path, Path.components_descend (lists.file.isPlain plain)]

theorem le_trans {a b c : Manifest} (ab : le a b = true) (bc : le b c = true) :
    le a c = true := by
  simp only [le, Bool.not_eq_true', decide_eq_false_iff_not] at ab bc ⊢
  exact List.le_trans ab bc

theorem le_total (a b : Manifest) : (le a b || le b a) = true := by
  simp only [le, Bool.or_eq_true, Bool.not_eq_true', decide_eq_false_iff_not]
  exact List.le_total (Path.order a.path) (Path.order b.path)

/-- Components tell manifests apart, so nothing is left to the order in which they were found. -/
theorem pairwise_find (wf : world.top.WellFormed) (plain : world.top.Plain) :
    (find world root patterns exclusion).Pairwise fun a b =>
      Path.order a.path < Path.order b.path := by
  have sorted : (find world root patterns exclusion).Pairwise fun a b => le a b = true := by
    rw [find]
    exact @List.pairwise_mergeSort Manifest le (fun _ _ _ => le_trans) le_total _
  have apart : (find world root patterns exclusion).Pairwise fun a b => a.path ≠ b.path :=
    List.pairwise_map.mp (nodup_paths wf root patterns exclusion)
  refine (sorted.and apart).imp_of_mem fun {a b} ha hb both => ?_
  obtain ⟨first, other⟩ := both
  simp only [le, Bool.not_eq_true', decide_eq_false_iff_not] at first
  refine Decidable.byContradiction fun last => ?_
  have same : Path.components a.path = Path.components b.path :=
    Path.order_inj.mp (List.le_antisymm first last)
  obtain ⟨names, lists⟩ := (mem_find_iff_lists wf plain).mp ha
  obtain ⟨names', lists'⟩ := (mem_find_iff_lists wf plain).mp hb
  rw [components_of_lists plain lists, components_of_lists plain lists'] at same
  exact other (by rw [lists.path, lists'.path, List.append_cancel_left same])

/-- Sorted lists of manifests with the same members are the same. -/
theorem eq_of_pairwise {l l' : List Manifest}
    (sorted : l.Pairwise fun a b => Path.order a.path < Path.order b.path)
    (sorted' : l'.Pairwise fun a b => Path.order a.path < Path.order b.path)
    (same : ∀ m, m ∈ l ↔ m ∈ l') : l = l' := by
  have distinct {l : List Manifest}
      (sorted : l.Pairwise fun a b => Path.order a.path < Path.order b.path) :
      l.Nodup := by
    refine sorted.imp ?_
    rintro a _ lt rfl
    exact List.lt_irrefl _ lt
  have perm : l.Perm l' :=
    (List.perm_ext_iff_of_nodup (distinct sorted) (distinct sorted')).mpr same
  exact perm.eq_of_pairwise
    (fun _ _ _ _ ab ba => absurd (List.lt_trans ab ba) (List.lt_irrefl _)) sorted sorted'

structure Finds (world : World) (root : String) (patterns : List String) (exclusion : Exclusion) :
    Prop where
  /-- The files at and below the root that match a pattern and are not kept out. -/
  lists : ∀ m, m ∈ find world root patterns exclusion ↔
    ∃ names, Lists world root patterns exclusion names m
  /-- Each of them is listed once. -/
  once : ∀ names m, Lists world root patterns exclusion names m →
    ((find world root patterns exclusion).map (·.path)).count m.path = 1 ∧
      ∀ names', Lists world root patterns exclusion names' m → names' = names
  sorted : (find world root patterns exclusion).Pairwise fun a b =>
    Path.order a.path < Path.order b.path
  /-- The order of the bytes is that of the characters. -/
  sortedTexts : (find world root patterns exclusion).Pairwise fun a b =>
    Path.IsText a.path → Path.IsText b.path → Path.components a.path < Path.components b.path
  /-- It does not matter whether the root itself is excluded. -/
  root : ∀ exclusion', (∀ way, way ≠ [] →
      exclusion'.excludesPath (Path.shown (Path.descend root way)) =
        exclusion.excludesPath (Path.shown (Path.descend root way))) →
    find world root patterns exclusion' = find world root patterns exclusion

/-- In a tree as file systems have them, whatever is looked for below whatever path. -/
theorem finds (wf : world.top.WellFormed) (plain : world.top.Plain) (root : String)
    (patterns : List String) (exclusion : Exclusion) : Finds world root patterns exclusion where
  lists m := mem_find_iff_lists wf plain
  once names m lists := by
    have member := (mem_find_iff_lists wf plain).mpr ⟨names, lists⟩
    refine ⟨List.count_eq_one_of_mem (nodup_paths wf root patterns exclusion)
      (List.mem_map_of_mem member), fun names' lists' => ?_⟩
    have same := (components_of_lists plain lists').symm.trans (components_of_lists plain lists)
    exact List.append_cancel_left same
  sorted := pairwise_find wf plain
  sortedTexts := (pairwise_find wf plain).imp fun before text text' =>
    (Path.order_lt_iff text text').mp before
  root exclusion' same := by
    apply eq_of_pairwise (pairwise_find wf plain) (pairwise_find wf plain)
    intro m
    rw [mem_find_iff_lists wf plain, mem_find_iff_lists wf plain]
    refine exists_congr fun names => ?_
    constructor
    · rintro ⟨file, path, entered, first⟩
      refine ⟨file, path, fun way some start part => ?_, first⟩
      rw [← same way some, entered way some start part]
    · rintro ⟨file, path, entered, first⟩
      refine ⟨file, path, fun way some start part => ?_, first⟩
      rw [same way some, entered way some start part]

/-- A module, a link to it and a copy of another module. -/
def vendored : World where
  top := .folder [("app", .folder [("go.mod", .file (some "module app"))]), ("link", .link "app"),
    ("vendor", .folder [("go.mod", .file (some "module lib"))])]
  here := []

theorem place?_vendored : vendored.place? "." = .ok [] := by
  have start : World.start? vendored.here "." = some ([], ["."]) := by decide +kernel
  rw [World.place?, World.find?, start]
  dsimp only
  rw [World.follow, World.follow]
  rfl

theorem wellFormed_vendored : vendored.top.WellFormed := by
  have name : Path.IsName "go.mod" := ⟨by decide, by decide⟩
  refine .folder (by decide) ?_ ?_
  · simp only [List.mem_cons, List.not_mem_nil, or_false, forall_eq_or_imp, forall_eq]
    refine ⟨⟨?_, ?_⟩, ⟨?_, ?_⟩, ⟨?_, ?_⟩⟩ <;> decide
  · simp only [List.mem_cons, List.not_mem_nil, or_false, forall_eq_or_imp, forall_eq]
    refine ⟨.folder (List.pairwise_singleton ..) (by simp [name]) ?_, .link _,
      .folder (List.pairwise_singleton ..) (by simp [name]) ?_⟩ <;>
    simp [FileTree.WellFormed.file]

theorem plain_vendored : vendored.top.Plain := by
  have name : Path.IsPlain "go.mod" := ⟨⟨by decide, by decide⟩, by decide, by decide⟩
  refine .folder ?_ ?_
  · simp only [List.mem_cons, List.not_mem_nil, or_false, forall_eq_or_imp, forall_eq]
    refine ⟨⟨⟨?_, ?_⟩, ?_, ?_⟩, ⟨⟨?_, ?_⟩, ?_, ?_⟩, ⟨⟨?_, ?_⟩, ?_, ?_⟩⟩ <;> decide
  · simp only [List.mem_cons, List.not_mem_nil, or_false, forall_eq_or_imp, forall_eq]
    refine ⟨.folder (by simp [name]) ?_, .link _, .folder (by simp [name]) ?_⟩ <;>
    simp [FileTree.Plain.file]

/-- The module is listed under the first pattern for its name, and the copy is not. -/
theorem finds_beside_vendored :
    let exclusion := Exclusion.forPlatform ["**/vendor/**"]
    let patterns := ["go.sum", "go.*", "*.mod"]
    ⟨"./app/go.mod", "go.*", some "module app"⟩ ∈ find vendored "." patterns exclusion ∧
      ∀ m ∈ find vendored "." patterns exclusion, m.path ≠ "./vendor/go.mod" := by
  intro exclusion patterns
  have all := (finds wellFormed_vendored plain_vendored "." patterns exclusion).lists
  constructor
  · refine (all _).mpr ⟨["app", "go.mod"], ⟨⟨[], place?_vendored, rfl⟩, by simp⟩, by decide +kernel,
      ?_, by decide +kernel⟩
    intro way some start part
    obtain rfl : way = ["app"] := by
      rcases List.prefix_cons_iff.mp start with none | ⟨rest, rfl, below⟩
      · exact absurd none some
      · rcases List.prefix_cons_iff.mp below with rfl | ⟨rest, rfl, last⟩
        · rfl
        · exact absurd (by rw [List.prefix_nil.mp last]) part
    decide +kernel
  · rintro m member path
    obtain ⟨names, lists⟩ := (all m).mp member
    have parts : Path.components "./vendor/go.mod" =
        Path.components "." ++ ["vendor", "go.mod"] := by
      decide +kernel
    have same := components_of_lists plain_vendored lists
    rw [path, parts] at same
    obtain rfl := List.append_cancel_left same
    have passed := lists.entered ["vendor"] (by simp) (by simp) (by simp)
    exact absurd passed (by decide +kernel)

end Manifest

end Inventory
