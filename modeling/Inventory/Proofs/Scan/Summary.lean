import Inventory.Proofs.Scan.Assembly

/-! The graphs of a result. The summary of a location says of each id that is not ignored what the
graphs of this location say of it together. -/
namespace Inventory

namespace GraphSummary

variable {ignored : String → Bool} {graphs : List Graph} {s : GraphSummary} {g : Graph}

def HasEdge (s : GraphSummary) (a b : String) : Prop :=
  ∃ children, s.edges.get? a = some children ∧ children.contains b = true

structure Sums (ignored : String → Bool) (graphs : List Graph) (s : GraphSummary) : Prop where
  ids : ∀ x, s.edges.contains x = true ↔ ignored x = false ∧ ∃ g ∈ graphs, g.contains x = true
  edges : ∀ x y, s.HasEdge x y ↔
    ignored x = false ∧ ignored y = false ∧ ∃ g ∈ graphs, g.HasChild x y
  explicit : ∀ x, s.explicit.contains x = true ↔
    ignored x = false ∧ ∃ g ∈ graphs, g.isExplicit x = true
  development : ∀ x, s.development.contains x = true ↔
    ignored x = false ∧ ∃ g ∈ graphs, g.development? x = some true

theorem sums_nil (ignored : String → Bool) : Sums ignored [] {} := by
  constructor <;> simp [HasEdge]

section Nodes

variable (ignored : String → Bool) (g : Graph) (ids : List String) (s : GraphSummary)

theorem contains_foldl_addNode (x : String) :
    (ids.foldl (addNode ignored g) s).edges.contains x = true ↔
      s.edges.contains x = true ∨ x ∈ ids := by
  induction ids generalizing s with
  | nil => simp
  | cons id ids ih => simp [ih, addNode, or_assoc, or_left_comm, @eq_comm _ id x]

theorem hasEdge_addNode (id x y : String) : (addNode ignored g s id).HasEdge x y ↔
    s.HasEdge x y ∨ (x = id ∧ ignored y = false ∧ g.HasChild x y) := by
  simp only [HasEdge, addNode, SortedMap.get?_upsert]
  by_cases same : id = x
  · subst same
    cases s.edges.get? id <;> simp [StringSet.contains_union, Graph.contains_children]
  · simp [same, Ne.symm same]

theorem hasEdge_foldl_addNode (x y : String) : (ids.foldl (addNode ignored g) s).HasEdge x y ↔
    s.HasEdge x y ∨ (x ∈ ids ∧ ignored y = false ∧ g.HasChild x y) := by
  induction ids generalizing s with
  | nil => simp
  | cons id ids ih =>
    rw [List.foldl_cons, ih, hasEdge_addNode, List.mem_cons, or_and_right, or_assoc]

theorem explicit_foldl_addNode (x : String) :
    (ids.foldl (addNode ignored g) s).explicit.contains x = true ↔
      s.explicit.contains x = true ∨ (x ∈ ids ∧ g.isExplicit x = true) := by
  have field : (ids.foldl (addNode ignored g) s).explicit =
      ids.foldl (fun e id => if g.isExplicit id = true then e.add id else e) s.explicit :=
    (List.foldl_hom explicit fun _ _ => rfl).symm
  rw [field, StringSet.contains_foldl_add_if]

theorem development_foldl_addNode (x : String) :
    (ids.foldl (addNode ignored g) s).development.contains x = true ↔
      s.development.contains x = true ∨ (x ∈ ids ∧ g.development? x = some true) := by
  have field : (ids.foldl (addNode ignored g) s).development =
      ids.foldl (fun d id => if g.development? id = some true then d.add id else d) s.development :=
    (List.foldl_hom development fun _ _ => rfl).symm
  rw [field, StringSet.contains_foldl_add_if]

end Nodes

/-- What holds of a node of the graph holds of one that is taken up, unless it is ignored. -/
theorem mem_kept_and {x : String} {P : Prop} (here : P → g.contains x = true) :
    (x ∈ g.ids.filter (!ignored ·) ∧ P) ↔ (ignored x = false ∧ P) := by
  rw [List.mem_filter, Bool.not_eq_true']
  constructor
  · rintro ⟨⟨_, kept⟩, holds⟩
    exact ⟨kept, holds⟩
  · rintro ⟨kept, holds⟩
    exact ⟨⟨SortedMap.mem_keys.mpr (here holds), kept⟩, holds⟩

theorem exists_mem_concat {P : Graph → Prop} :
    (∃ h ∈ graphs ++ [g], P h) ↔ (∃ h ∈ graphs, P h) ∨ P g := by
  simp [or_and_right, exists_or]

/-- A graph joins those that its location has already. -/
theorem Sums.addGraph (sums : Sums ignored graphs s) (g : Graph) :
    Sums ignored (graphs ++ [g]) (s.addGraph ignored g) where
  ids x := by
    have kept : x ∈ g.ids.filter (!ignored ·) ↔ ignored x = false ∧ g.contains x = true := by
      rw [← mem_kept_and id, and_iff_left_of_imp]
      exact fun member => SortedMap.mem_keys.mp (List.mem_filter.mp member).1
    rw [GraphSummary.addGraph, contains_foldl_addNode, sums.ids, kept, exists_mem_concat,
      and_or_left]
  edges x y := by
    rw [GraphSummary.addGraph, hasEdge_foldl_addNode, sums.edges,
      mem_kept_and fun edge => Graph.contains_of_hasChild edge.2, exists_mem_concat, and_or_left,
      and_or_left]
  explicit x := by
    rw [GraphSummary.addGraph, explicit_foldl_addNode, sums.explicit,
      mem_kept_and Graph.contains_of_isExplicit, exists_mem_concat, and_or_left]
  development x := by
    rw [GraphSummary.addGraph, development_foldl_addNode, sums.development,
      mem_kept_and Graph.contains_of_development, exists_mem_concat, and_or_left]

end GraphSummary

section Locations

variable (a : ScanArguments) (contributions : List Contribution)

def graphsAt (location : String) : List Graph :=
  ((contributions.flatMap (·.recorder.graphs)).filter
    (relativeLocation a.source ·.1 == location)).map (·.2)

variable {a contributions} {location : String} {g : Graph} {s : GraphSummary}

theorem mem_graphsAt : g ∈ graphsAt a contributions location ↔ ∃ path f,
    HasFile contributions path f ∧ relativeLocation a.source path = location ∧
      f.graph = g ∧ g.isEmpty = false := by
  simp only [graphsAt, Recorder.graphs, List.mem_map, List.mem_filter, List.mem_flatMap]
  constructor
  · rintro ⟨_, ⟨⟨c, member, ⟨path, f⟩, ⟨entry, some⟩, rfl⟩, here⟩, rfl⟩
    exact ⟨path, f, ⟨c, member, SortedMap.get?_eq_some_iff.mpr entry⟩, by simpa using here, rfl,
      by simpa using some⟩
  · rintro ⟨path, f, ⟨c, member, found⟩, here, rfl, some⟩
    exact ⟨_, ⟨⟨c, member, ⟨path, f⟩, ⟨SortedMap.get?_eq_some_iff.mp found, by simpa using some⟩,
      rfl⟩, by simpa using here⟩, rfl⟩

theorem graph_mem_graphsAt {path : String} {f : FileRecorder} (file : HasFile contributions path f)
    (some : f.graph.isEmpty = false) :
    f.graph ∈ graphsAt a contributions (relativeLocation a.source path) :=
  mem_graphsAt.mpr ⟨path, f, file, rfl, rfl, some⟩

/-- Under a location stands what its graphs come to, if it has any. -/
theorem get?_summarizeGraphs (a : ScanArguments) (contributions : List Contribution)
    (location : String) : (summarizeGraphs a contributions).get? location =
      (graphsAt a contributions location).foldl
        (fun old g => some ((old.getD {}).addGraph a.ignores g)) none := by
  have filed := SortedMap.get?_foldl_upsert
    (fun e : String × Graph => relativeLocation a.source e.1)
    (fun e (old : Option GraphSummary) => (old.getD {}).addGraph a.ignores e.2)
    (contributions.flatMap (·.recorder.graphs)) .empty location
  rw [graphsAt, List.foldl_map, summarizeGraphs]
  exact filed

theorem foldl_addGraph (graphs rest : List Graph) {ignored : String → Bool} :
    ∀ old : Option GraphSummary, GraphSummary.Sums ignored graphs (old.getD {}) → rest ≠ [] →
      ∃ s, rest.foldl (fun old g => some ((old.getD {}).addGraph ignored g)) old = some s ∧
        GraphSummary.Sums ignored (graphs ++ rest) s := by
  induction rest generalizing graphs with
  | nil => exact fun _ _ some => absurd rfl some
  | cons g rest ih =>
    intro old sums _
    have next := sums.addGraph g
    cases rest with
    | nil => exact ⟨_, rfl, next⟩
    | cons h rest =>
      obtain ⟨s, run, all⟩ := ih (graphs ++ [g]) (some ((old.getD {}).addGraph ignored g)) next
        (List.cons_ne_nil h rest)
      exact ⟨s, run, by simpa using all⟩

theorem sums_of_get? (found : (summarizeGraphs a contributions).get? location = some s) :
    GraphSummary.Sums a.ignores (graphsAt a contributions location) s := by
  rw [get?_summarizeGraphs] at found
  by_cases none : graphsAt a contributions location = []
  · simp [none] at found
  · obtain ⟨t, run, sums⟩ := foldl_addGraph [] _ .none (GraphSummary.sums_nil a.ignores) none
    obtain rfl := Option.some.inj (run.symm.trans found)
    exact sums

theorem exists_summary (member : g ∈ graphsAt a contributions location) :
    ∃ s, (summarizeGraphs a contributions).get? location = some s := by
  obtain ⟨s, run, _⟩ := foldl_addGraph [] _ none (GraphSummary.sums_nil a.ignores)
    (List.ne_nil_of_mem member)
  exact ⟨s, (get?_summarizeGraphs ..).trans run⟩

/-- A location says of an id that is not ignored what some manifest there says of it. -/
theorem exists_summary_iff {x : String} {P : Graph → Prop} {Q : GraphSummary → Prop}
    (some : ∀ g, P g → g.isEmpty = false)
    (sums : ∀ graphs s, GraphSummary.Sums a.ignores graphs s →
      (Q s ↔ a.ignores x = false ∧ ∃ g ∈ graphs, P g)) :
    (∃ location s, (summarizeGraphs a contributions).get? location = .some s ∧ Q s) ↔
      a.ignores x = false ∧ ∃ path f, HasFile contributions path f ∧ P f.graph := by
  constructor
  · rintro ⟨location, s, found, holds⟩
    obtain ⟨kept, g, member, said⟩ := (sums _ s (sums_of_get? found)).mp holds
    obtain ⟨path, f, file, _, rfl, _⟩ := mem_graphsAt.mp member
    exact ⟨kept, path, f, file, said⟩
  · rintro ⟨kept, path, f, file, said⟩
    have member := graph_mem_graphsAt (a := a) file (some _ said)
    obtain ⟨s, found⟩ := exists_summary member
    exact ⟨_, s, found, (sums _ s (sums_of_get? found)).mpr ⟨kept, _, member, said⟩⟩

end Locations

end Inventory
