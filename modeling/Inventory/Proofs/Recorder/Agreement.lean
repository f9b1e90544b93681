import Inventory.Proofs.Recorder.Flattening
import Inventory.Scan.Run

/-! The views of a recorder agree. Where components stand is gathered manifest by manifest, and it
is what the merged components say. -/
namespace Inventory

namespace Grouping

structure Gathers (entries : List (String × FileRecorder)) (id : String) (g : Grouping) :
    Prop where
  named : g.id = id
  foundIn : g.foundIn = (entries.filter (·.2.graph.contains id)).map (·.1)
  files : ∀ path, g.files.contains path = true ↔ ∃ e ∈ entries,
    e.2.graph.contains id = true ∧ (e.1 = path ∨ e.2.graph.relatedFiles.contains path = true)
  explicitParents : ∀ root, g.explicitParents.contains root = true ↔ ∃ e ∈ entries,
    e.2.graph.contains id = true ∧
      ((e.2.graph.explicitRoots id).toOption.getD .empty).contains root = true

variable {entries : List (String × FileRecorder)} {e : String × FileRecorder} {id : String}
  {g : Grouping} {groups : SortedMap Grouping}

theorem gathers_nil (id : String) : Gathers [] id { id } := by
  constructor <;> simp

/-- A manifest that does not have the id says nothing of it. -/
theorem Gathers.skip (gathers : Gathers entries id g) (absent : ¬ e.2.graph.contains id = true) :
    Gathers (entries ++ [e]) id g where
  named := gathers.named
  foundIn := by simp [gathers.foundIn, absent]
  files path := by simp [gathers.files, or_and_right, exists_or, absent]
  explicitParents root := by simp [gathers.explicitParents, or_and_right, exists_or, absent]

theorem Gathers.note (gathers : Gathers entries id ((groups.get? id).getD { id }))
    (here : e.2.graph.contains id = true) :
    Gathers (entries ++ [e]) id
      (((Recorder.noteIn e.1 e.2.graph groups id).get? id).getD { id }) := by
  obtain ⟨named, foundIn, files, explicitParents⟩ := gathers
  simp only [Recorder.noteIn, SortedMap.get?_upsert, if_pos, Option.getD_some]
  constructor
  case named => exact named
  case foundIn => simp [foundIn, here]
  case files =>
    intro path
    simp [or_and_right, exists_or, here, ← files, or_assoc, or_left_comm, or_comm]
  case explicitParents =>
    intro root
    simp [or_and_right, exists_or, here, ← explicitParents]

structure Gathered (entries : List (String × FileRecorder)) (groups : SortedMap Grouping) :
    Prop where
  listed : ∀ id, groups.contains id = true ↔ ∃ e ∈ entries, e.2.graph.contains id = true
  gathers : ∀ id, Gathers entries id ((groups.get? id).getD { id })

/-- A manifest is noted once for each id of its graph. -/
theorem get?_foldl_noteIn (location : String) (graph : Graph) (groups : SortedMap Grouping)
    (id : String) : (graph.ids.foldl (Recorder.noteIn location graph) groups).get? id =
      if graph.contains id then (Recorder.noteIn location graph groups id).get? id
      else groups.get? id := by
  refine (SortedMap.get?_foldl_upsert (fun id => id) _ graph.ids groups id).trans ?_
  rw [List.filter_beq]
  -- The ids of a graph are distinct, so at most one of the writes is to this one.
  have once : graph.ids.Nodup := graph.nodes.sorted_keys.imp String.ne_of_lt
  split
  next here =>
    rw [List.count_eq_one_of_mem once (SortedMap.mem_keys.mpr here), Recorder.noteIn,
      SortedMap.get?_upsert, if_pos rfl]
    rfl
  next unknown =>
    have absent : id ∉ graph.ids := fun member => unknown (SortedMap.mem_keys.mp member)
    rw [List.count_eq_zero.mpr absent]
    rfl

theorem Gathered.manifest (gathered : Gathered entries groups) (e : String × FileRecorder) :
    Gathered (entries ++ [e]) (e.2.graph.ids.foldl (Recorder.noteIn e.1 e.2.graph) groups) := by
  constructor
  case listed =>
    intro id
    have before := gathered.listed id
    rw [SortedMap.contains_eq_isSome] at before ⊢
    rw [get?_foldl_noteIn]
    by_cases here : e.2.graph.contains id = true
    · simp [here, Recorder.noteIn, SortedMap.get?_upsert, or_and_right, exists_or]
    · simp [here, before, or_and_right, exists_or]
  case gathers =>
    intro id
    rw [get?_foldl_noteIn]
    by_cases here : e.2.graph.contains id = true
    · rw [if_pos here]
      exact (gathered.gathers id).note here
    · rw [if_neg here]
      exact (gathered.gathers id).skip here

theorem Gathered.manifests (gathered : Gathered entries groups)
    (rest : List (String × FileRecorder)) : Gathered (entries ++ rest)
      (rest.foldl (fun groups e => e.2.graph.ids.foldl (Recorder.noteIn e.1 e.2.graph) groups)
        groups) := by
  induction rest generalizing entries groups with
  -- What was gathered from the manifests before is the invariant.
  | nil => simpa using gathered
  | cons e rest ih => simpa using ih (gathered.manifest e)

theorem gathered_empty : Gathered [] .empty where
  listed := by simp
  gathers := gathers_nil

theorem Gathered.gathers_of_get? (gathered : Gathered entries groups)
    (found : groups.get? id = some g) : Gathers entries id g := by
  have gathers := gathered.gathers id
  rwa [found, Option.getD_some] at gathers

end Grouping

namespace Recorder

variable {admits : Detected → Prop} {r : Recorder} {g : Grouping} {c : Detected}

/-- All groups of a recorder by id. -/
theorem gathered_groups (r : Recorder) :
    ∃ groups, Grouping.Gathered r.files.entries groups ∧ r.groups = groups.values :=
  ⟨_, Grouping.gathered_empty.manifests r.files.entries, rfl⟩

theorem gathers_of_mem_groups (member : g ∈ r.groups) :
    Grouping.Gathers r.files.entries g.id g := by
  obtain ⟨groups, gathered, values⟩ := r.gathered_groups
  obtain ⟨id, found⟩ := SortedMap.mem_values.mp (values ▸ member)
  have gathers := gathered.gathers_of_get? found
  exact gathers.named.symm ▸ gathers

theorem exists_mem_groups {id : String} : (∃ g ∈ r.groups, g.id = id) ↔
    ∃ location f, r.files.get? location = some f ∧ f.graph.contains id = true := by
  obtain ⟨groups, gathered, values⟩ := r.gathered_groups
  have listed := gathered.listed id
  simp only [Prod.exists, ← SortedMap.get?_eq_some_iff] at listed
  rw [values, ← listed, SortedMap.contains_iff]
  constructor
  · rintro ⟨g, member, rfl⟩
    obtain ⟨key, found⟩ := SortedMap.mem_values.mp member
    exact ⟨g, (gathered.gathers_of_get? found).named ▸ found⟩
  · rintro ⟨g, found⟩
    exact ⟨g, SortedMap.mem_values.mpr ⟨id, found⟩, (gathered.gathers_of_get? found).named⟩

theorem pairwise_groups (r : Recorder) : r.groups.Pairwise (·.id < ·.id) := by
  obtain ⟨groups, gathered, values⟩ := r.gathered_groups
  rw [values]
  exact SortedMap.pairwise_values fun _ _ found => (gathered.gathers_of_get? found).named

theorem foundIn_of_mem_groups (member : g ∈ r.groups) :
    g.foundIn = (r.graphs.filter (·.2.contains g.id)).map (·.1) := by
  have known (e : String × FileRecorder) : (e.2.graph.contains g.id && !e.2.graph.isEmpty) =
      e.2.graph.contains g.id := by
    cases here : e.2.graph.contains g.id
    · rfl
    · rw [Graph.isEmpty_eq_false here]; rfl
  rw [(gathers_of_mem_groups member).foundIn, graphs, List.filter_map, List.filter_filter,
    List.map_map]
  simp only [Function.comp_def, known]

section Plain

variable (filled : r.Filled Detected.Plain)

include filled

theorem filePaths_of_plain (member : c ∈ r.detected) (path : String) :
    c.filePaths.contains path = true ↔ ∃ location f, r.files.get? location = some f ∧
      f.graph.contains c.id = true ∧
        (location = path ∨ f.graph.relatedFiles.contains path = true) := by
  have sound := filled.sound plain_steady
  rw [filePaths_of_mem_detected sound member]
  refine exists_file_congr fun location f file => ?_
  refine and_congr_right fun _ => or_iff_left ?_
  rintro ⟨d, stored, listed⟩
  have plain := (sound location f file).keyed _ d stored
  rw [plain.2.2] at listed
  cases listed

theorem roots_of_plain (member : c ∈ r.detected) (root : String) :
    c.roots.containsId root = true ↔ ∃ location f, r.files.get? location = some f ∧
      f.graph.contains c.id = true ∧ f.graph.isExplicit root = true ∧
        f.graph.Below c.id root := by
  have sound := filled.sound plain_steady
  rw [roots_of_mem_detected sound member]
  refine exists_file_congr fun location f file => ?_
  refine and_congr_right fun _ => or_iff_left ?_
  rintro ⟨d, stored, listed⟩
  have plain := (sound location f file).keyed _ d stored
  rw [plain.2.1] at listed
  cases listed

/-- Explicit are those that are roots of their own. -/
theorem explicit_iff_own_root (member : c ∈ r.detected) :
    c.explicit = true ↔ c.roots.containsId c.id = true := by
  rw [explicit_of_mem_detected (filled.sound plain_steady) member, roots_of_plain filled member]
  refine exists_file_congr fun location f file => ?_
  constructor
  · intro explicit
    exact ⟨Graph.contains_of_isExplicit explicit, explicit, .refl _ _⟩
  · rintro ⟨_, explicit, _⟩
    exact explicit

end Plain

/-- A group says of an id what the merged component of this id says. -/
structure Agrees (r : Recorder) (g : Grouping) (c : Detected) : Prop where
  id : g.id = c.id
  files : g.files = c.filePaths
  explicitParents : g.explicitParents.toList = c.roots.ids
  foundIn : g.foundIn = (r.graphs.filter (·.2.contains c.id)).map (·.1)
  sorted : g.foundIn.Pairwise (· < ·)

theorem agrees_of_plain (filled : r.Filled Detected.Plain) (among : g ∈ r.groups)
    (member : c ∈ r.detected) (same : g.id = c.id) : Agrees r g c := by
  have gathers := gathers_of_mem_groups among
  have sound := filled.sound plain_steady
  constructor
  case id => exact same
  case files =>
    refine StringSet.ext fun path => Bool.eq_iff_iff.mpr ?_
    rw [gathers.files, filePaths_of_plain filled member, same]
    simp only [Prod.exists, SortedMap.get?_eq_some_iff]
  case explicitParents =>
    refine SortedMap.keys_eq fun root => Bool.eq_iff_iff.mpr ?_
    refine (gathers.explicitParents root).trans ((roots_of_plain filled member root).trans ?_).symm
    simp only [Prod.exists, ← SortedMap.get?_eq_some_iff, same]
    refine exists_file_congr fun location f file => ?_
    refine and_congr_right fun here => (Graph.contains_explicitRoots ?_ here).symm
    obtain ⟨d, named, _⟩ := FileRecorder.exists_stored (sound location f file) here
    exact named ▸ d.component.id_ne_empty
  case foundIn => rw [foundIn_of_mem_groups among, same]
  case sorted =>
    rw [gathers.foundIn]
    exact List.pairwise_map.mpr (r.files.sorted.filter _)

theorem exists_graph_explicit {id : String} : (∃ e ∈ r.graphs, id ∈ e.2.explicitIds) ↔
    ∃ location f, r.files.get? location = some f ∧ f.graph.isExplicit id = true := by
  simp only [graphs, List.mem_map, List.mem_filter, Prod.exists, Prod.mk.injEq,
    SortedMap.get?_eq_some_iff]
  constructor
  · rintro ⟨_, _, ⟨location, f, ⟨file, _⟩, rfl, rfl⟩, listed⟩
    exact ⟨location, f, file, Graph.mem_explicitIds.mp listed⟩
  · rintro ⟨location, f, file, explicit⟩
    have known := Graph.isEmpty_eq_false (Graph.contains_of_isExplicit explicit)
    exact ⟨location, f.graph, ⟨location, f, ⟨file, by simp [known]⟩, rfl, rfl⟩,
      Graph.mem_explicitIds.mpr explicit⟩

theorem contains_explicitIds {id : String} : r.explicitIds.contains id = true ↔
    ∃ e ∈ r.graphs, id ∈ e.2.explicitIds := by
  have all : r.explicitIds = StringSet.ofList (r.graphs.flatMap (·.2.explicitIds)) :=
    List.foldl_flatMap.symm
  rw [all, StringSet.contains_ofList, List.contains_iff_mem, List.mem_flatMap]

/-- The explicit ids of the graphs are those of the explicit components. -/
theorem keys_explicitIds (sound : ∀ location f, r.files.get? location = some f → f.Sound admits) :
    r.explicitIds.keys = (r.detected.filter (·.explicit)).map (·.id) := by
  have sorted : ((r.detected.filter (·.explicit)).map (·.id)).Pairwise (· < ·) :=
    List.pairwise_map.mpr ((Detected.pairwise_mergeAll ..).filter _)
  refine eq_of_sorted r.explicitIds.sorted_keys sorted fun id => ?_
  rw [SortedMap.mem_keys, contains_explicitIds, exists_graph_explicit, List.mem_map]
  constructor
  · rintro ⟨location, f, file, explicit⟩
    obtain ⟨c, member, rfl⟩ := (exists_mem_detected_iff sound).mpr
      ⟨location, f, file, Graph.contains_of_isExplicit explicit⟩
    have said := (explicit_of_mem_detected sound member).mpr ⟨location, f, file, explicit⟩
    exact ⟨c, List.mem_filter.mpr ⟨member, said⟩, rfl⟩
  · rintro ⟨c, among, rfl⟩
    obtain ⟨member, explicit⟩ := List.mem_filter.mp among
    exact (explicit_of_mem_detected sound member).mp explicit

theorem effectiveDevelopment_eq
    (sound : ∀ location f, r.files.get? location = some f → f.Sound admits) (id : String) :
    r.effectiveDevelopment id = (r.detected.find? (·.id == id)).bind (·.development) := by
  have known : r.effectiveDevelopment id =
      r.rule.effective (r.files.entries.map fun e => e.2.graph.development? id) := by
    refine r.rule.effective_congr fun value => ?_
    simp only [List.mem_map, List.mem_filter, SortedMap.values]
    constructor
    · rintro ⟨f, ⟨⟨e, member, rfl⟩, _⟩, said⟩
      exact ⟨e, member, said⟩
    · rintro ⟨e, member, said⟩
      exact ⟨e.2, ⟨⟨e, member, rfl⟩, Graph.contains_of_development said⟩, said⟩
  cases found : r.detected.find? (·.id == id) with
  | some c =>
    obtain rfl : c.id = id := by simpa using List.find?_some found
    have member := List.mem_of_find?_eq_some found
    rw [known, Option.bind_some, development_of_mem_detected sound member]
  | none =>
    -- An id that no component has is in no graph.
    rw [Option.bind_none, Option.eq_none_iff_forall_ne_some]
    intro value said
    obtain ⟨e, entry, said⟩ := List.mem_map.mp (r.rule.mem_of_effective (known ▸ said))
    obtain ⟨c, member, same⟩ := (exists_mem_detected_iff sound).mpr
      ⟨e.1, e.2, SortedMap.get?_eq_some_iff.mpr entry, Graph.contains_of_development said⟩
    exact List.find?_eq_none.mp found c member (by simpa using same)

/-- The views of a recorder agree. -/
theorem views_agree (filled : r.Filled Detected.Plain) :
    (∀ id, r.effectiveDevelopment id = (r.detected.find? (·.id == id)).bind (·.development)) ∧
      List.Forall₂ (Agrees r) r.groups r.detected ∧
      (∀ c ∈ r.detected, (c.explicit = true ↔ c.roots.containsId c.id = true) ∧
        (c.explicit = true ↔ ∃ e ∈ r.graphs, c.id ∈ e.2.explicitIds)) ∧
      ∀ run : DetectorRun, run.written = r → run.discarded = false →
        run.explicitCount = r.detected.countP (·.explicit) := by
  have sound := filled.sound plain_steady
  refine ⟨effectiveDevelopment_eq sound, ?_, fun c member => ⟨?_, ?_⟩, ?_⟩
  · refine forall₂_of_sorted r.pairwise_groups (Detected.pairwise_mergeAll ..) (fun id => ?_)
      fun g among c member same => agrees_of_plain filled among member same
    exact exists_mem_groups.trans (exists_mem_detected_iff sound).symm
  · exact explicit_iff_own_root filled member
  · rw [explicit_of_mem_detected sound member, exists_graph_explicit]
  · rintro run rfl kept
    have length := congrArg List.length (keys_explicitIds sound)
    simp only [SortedMap.keys, List.length_map] at length
    rw [DetectorRun.explicitCount, kept, List.countP_eq_length_filter, ← length]
    rfl

theorem views_agree_below_root : ∃ r : Recorder, r.AppWithLib ∧
    List.Forall₂ (Agrees r) r.groups r.detected ∧
      ∀ d : Detector, DetectorRun.explicitCount ⟨d, false, .finished .success .empty, r⟩ =
        r.detected.countP (·.explicit) := by
  obtain ⟨r, both⟩ := exists_appWithLib
  obtain ⟨_, groups, _, count⟩ := views_agree (both.filled ⟨rfl, rfl⟩ ⟨rfl, rfl⟩)
  exact ⟨r, both, groups, fun _ => count _ rfl rfl⟩

end Recorder

end Inventory
