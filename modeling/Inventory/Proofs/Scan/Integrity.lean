import Inventory.Proofs.Scan.Summary

/-! Components and graphs of a result come from two separate passes over the recorders. They agree,
since in every recorder the store has the ids of the graph and both passes leave out the
same ids. -/
namespace Inventory

namespace GraphSummary

structure Closed (s : GraphSummary) : Prop where
  children : ∀ x y, s.HasEdge x y → s.edges.contains y = true
  explicit : ∀ x, s.explicit.contains x = true → s.edges.contains x = true
  development : ∀ x, s.development.contains x = true → s.edges.contains x = true

variable {ignored : String → Bool} {graphs : List Graph} {s : GraphSummary}

theorem Sums.closed (sums : Sums ignored graphs s) (consistent : ∀ g ∈ graphs, g.Consistent) :
    s.Closed where
  children x y edge := by
    obtain ⟨_, kept, g, member, edge⟩ := (sums.edges x y).mp edge
    exact (sums.ids y).mpr ⟨kept, g, member, ((consistent g member).closed x y edge).2⟩
  explicit x listed := by
    obtain ⟨kept, g, member, explicit⟩ := (sums.explicit x).mp listed
    exact (sums.ids x).mpr ⟨kept, g, member, Graph.contains_of_isExplicit explicit⟩
  development x listed := by
    obtain ⟨kept, g, member, said⟩ := (sums.development x).mp listed
    exact (sums.ids x).mpr ⟨kept, g, member, Graph.contains_of_development said⟩

/-- Without ignored ids a summary has every path of its graphs. -/
theorem Sums.path (sums : Sums ignored graphs s) (none : ∀ x, ignored x = false) {g : Graph}
    (member : g ∈ graphs) (consistent : g.Consistent) {x y : String} (below : g.Below x y) :
    Relation.ReflTransGen s.HasEdge y x := by
  induction below with
  | refl => exact .refl
  | @tail y z _ edge ih =>
    have down : g.HasChild z y := (consistent.child_iff_parent z y).mpr edge
    exact ih.head ((sums.edges z y).mpr ⟨none z, none y, g, member, down⟩)

end GraphSummary

namespace ScanResult

def AtSome (r : ScanResult) (Q : GraphSummary → Prop) : Prop :=
  ∃ location s, r.graphs.get? location = some s ∧ Q s

structure Intact (r : ScanResult) : Prop where
  sorted : r.components.Pairwise (·.id < ·.id)
  ids : ∀ x, (∃ c ∈ r.components, c.id = x) ↔ r.AtSome (·.edges.contains x = true)
  closed : ∀ location s, r.graphs.get? location = some s → s.Closed
  filePaths : ∀ c ∈ r.components, ∀ location s, r.graphs.get? location = some s →
    s.edges.contains c.id = true → c.filePaths.contains location = true
  explicit : ∀ c ∈ r.components,
    (c.explicit = true ↔ r.AtSome (·.explicit.contains c.id = true))
  development : ∀ c ∈ r.components,
    c.development = some true → r.AtSome (·.development.contains c.id = true)

/-- Each root of a component is an explicit component of the result, and at some location that
lists it one comes from it down to the component. -/
def Rooted (r : ScanResult) : Prop :=
  ∀ c ∈ r.components, ∀ root ∈ c.roots.toList,
    (∃ top ∈ r.components, top.id = root.id ∧ top.explicit = true) ∧
      r.AtSome fun s => s.explicit.contains root.id = true ∧
        Relation.ReflTransGen s.HasEdge root.id c.id

end ScanResult

variable {a : ScanArguments} {contributions : List Contribution} {c : Detected}
  {admits : Detected → Prop} (steady : ∀ d frameworks, admits d → admits { d with frameworks })
  (filled : FilledWith admits contributions)

include steady filled in
theorem closed_of_get? {location : String} {s : GraphSummary}
    (found : (summarizeGraphs a contributions).get? location = some s) : s.Closed := by
  refine (sums_of_get? found).closed fun g member => ?_
  obtain ⟨path, f, file, _, rfl, _⟩ := mem_graphsAt.mp member
  exact (sound_of_hasFile steady filled file).consistent

include steady filled in
theorem location_mem_filePaths (member : c ∈ mergedComponents a contributions) {location : String}
    {s : GraphSummary} (found : (summarizeGraphs a contributions).get? location = some s)
    (here : s.edges.contains c.id = true) : c.filePaths.contains location = true := by
  obtain ⟨_, g, among, node⟩ := ((sums_of_get? found).ids c.id).mp here
  obtain ⟨path, f, file, rfl, rfl, _⟩ := mem_graphsAt.mp among
  obtain ⟨d, same, _, observed⟩ := exists_observed steady filled file node
  refine component_of_observed (Detected.lasting_filePath (relativeLocation a.source path))
    (Detected.lasting_filePath path) (fun detector d here => ?_) member observed same ?_
  · have listed : path ∈ d.filePaths.toList := StringSet.mem_toList.mpr here
    simp only [Detected.located, StringSet.contains_ofList, List.contains_iff_mem]
    exact List.mem_map_of_mem listed
  · exact (f.contains_filePaths_observe path d path).mpr (.inl rfl)

include steady filled in
theorem explicit_iff (member : c ∈ mergedComponents a contributions) : c.explicit = true ↔
    ∃ location f, HasFile contributions location f ∧ f.graph.isExplicit c.id = true := by
  constructor
  · intro explicit
    obtain ⟨o, observed, same, explicit⟩ := observed_of_component Detected.inherited_explicit
      Detected.inherited_explicit (fun _ _ => id) member explicit
    obtain ⟨location, f, d, file, _, rfl⟩ := (observed_iff steady filled).mp observed
    exact ⟨location, f, file, same ▸ explicit⟩
  · rintro ⟨location, f, file, explicit⟩
    have here := Graph.contains_of_isExplicit explicit
    obtain ⟨d, same, _, observed⟩ := exists_observed steady filled file here
    have said : f.graph.isExplicit d.id = true := same.symm ▸ explicit
    exact component_of_observed Detected.lasting_explicit Detected.lasting_explicit
      (fun _ _ => id) member observed same said

include steady filled in
theorem development_said (member : c ∈ mergedComponents a contributions)
    (development : c.development = some true) :
    ∃ location f, HasFile contributions location f ∧ f.graph.development? c.id = some true := by
  obtain ⟨o, observed, same, said⟩ := observed_of_component (Detected.inherited_development true)
    (Detected.inherited_development true) (fun _ _ => id) member development
  obtain ⟨location, f, d, file, _, rfl⟩ := (observed_iff steady filled).mp observed
  exact ⟨location, f, file, same ▸ said⟩

theorem ignores_of_nil {x : String} (none : a.ignored = []) : a.ignores x = false := by
  simp [ScanArguments.ignores, none, Wildcard.matchesAny]

/-- A root of a component was found above it in some manifest. -/
theorem exists_root (filled : FilledWith Detected.Plain contributions)
    (member : c ∈ mergedComponents a contributions) {root : String}
    (listed : c.roots.containsId root = true) : ∃ location f, HasFile contributions location f ∧
      f.graph.isExplicit root = true ∧ f.graph.Below c.id root := by
  obtain ⟨o, observed, same, listed⟩ := observed_of_component (Detected.inherited_root root)
    (Detected.inherited_root root) (fun _ _ => id) member listed
  obtain ⟨location, f, d, file, stored, rfl⟩ := (observed_iff plain_steady filled).mp observed
  have sound := sound_of_hasFile plain_steady filled file
  rcases (FileRecorder.containsId_roots_observe sound stored location root).mp listed with
    preset | ⟨explicit, below⟩
  · -- What is stored came without roots, so they are all from the graph.
    have plain := (sound.keyed d.id d stored).2.1
    simp [plain, ComponentSet.containsId, ComponentSet.empty] at preset
  · exact ⟨location, f, file, explicit, same ▸ below⟩

theorem rooted_of_filled (filled : FilledWith Detected.Plain contributions)
    (none : a.ignored = []) (member : c ∈ mergedComponents a contributions) {root : String}
    (listed : c.roots.containsId root = true) :
    (∃ top ∈ mergedComponents a contributions, top.id = root ∧ top.explicit = true) ∧
      ∃ location s, (summarizeGraphs a contributions).get? location = some s ∧
        s.explicit.contains root = true ∧ Relation.ReflTransGen s.HasEdge root c.id := by
  obtain ⟨path, f, file, explicit, below⟩ := exists_root filled member listed
  have here := Graph.contains_of_isExplicit explicit
  have consistent := (sound_of_hasFile plain_steady filled file).consistent
  constructor
  · obtain ⟨top, top_member, rfl⟩ := (exists_component_iff (a := a) plain_steady filled).mpr
      ⟨ignores_of_nil none, path, f, file, here⟩
    exact ⟨top, top_member, rfl,
      (explicit_iff plain_steady filled top_member).mpr ⟨path, f, file, explicit⟩⟩
  · have among := graph_mem_graphsAt (a := a) file (Graph.isEmpty_eq_false here)
    obtain ⟨s, found⟩ := exists_summary among
    have sums := sums_of_get? found
    exact ⟨_, s, found, (sums.explicit root).mpr ⟨ignores_of_nil none, _, among, explicit⟩,
      sums.path (fun _ => ignores_of_nil none) among consistent below⟩

/-- Whatever the detectors wrote and whatever is ignored, components and graphs agree, and nothing
that is not ignored gets lost. -/
theorem assemble_intact (a : ScanArguments) (correlationId : String) (time : Instant)
    (outcome : Outcome) (detectors : List DetectorInfo) (contributions : List Contribution)
    (filled : FilledWith Detected.Plain contributions) :
    let result := assemble a correlationId time outcome detectors contributions
    result.Intact ∧
      (∀ x, (∃ c ∈ result.components, c.id = x) ↔ a.ignores x = false ∧
        ∃ location f, HasFile contributions location f ∧ f.graph.contains x = true) ∧
      (a.ignored = [] → result.Rooted) := by
  intro result
  have components : result.components = mergedComponents a contributions := rfl
  refine ⟨?_, fun _ => exists_component_iff plain_steady filled,
    fun none c member root listed => ?_⟩
  · constructor
    case sorted => exact Detected.pairwise_mergeAll ..
    case ids =>
      intro x
      rw [components, exists_component_iff plain_steady filled]
      exact (exists_summary_iff (fun _ => Graph.isEmpty_eq_false) fun _ _ sums => sums.ids x).symm
    case closed => exact fun _ _ found => closed_of_get? plain_steady filled found
    case filePaths =>
      exact fun c member _ _ found here =>
        location_mem_filePaths plain_steady filled member found here
    case explicit =>
      intro c member
      have kept := ignores_of_mem_mergedComponents member
      have listed : result.AtSome (·.explicit.contains c.id = true) ↔ _ := exists_summary_iff
        (fun _ explicit => Graph.isEmpty_eq_false (Graph.contains_of_isExplicit explicit))
        fun _ _ sums => sums.explicit c.id
      rw [explicit_iff plain_steady filled member]
      exact ⟨fun some => listed.mpr ⟨kept, some⟩, fun some => (listed.mp some).2⟩
    case development =>
      intro c member development
      have kept := ignores_of_mem_mergedComponents member
      have listed : result.AtSome (·.development.contains c.id = true) ↔ _ := exists_summary_iff
        (fun _ said => Graph.isEmpty_eq_false (Graph.contains_of_development said))
        fun _ _ sums => sums.development c.id
      exact listed.mpr ⟨kept, development_said plain_steady filled member development⟩
  · have named := ComponentSet.containsId_iff.mpr ⟨root, listed, rfl⟩
    exact rooted_of_filled filled none member named

theorem assemble_intact_below_root : ∃ r : Recorder, r.AppWithLib ∧
    let result := assemble { source := "/src" } "" default .success [] [⟨"Npm", r⟩]
    result.Intact ∧ result.Rooted := by
  obtain ⟨r, both⟩ := Recorder.exists_appWithLib
  have intact := assemble_intact { source := "/src" } "" default .success [] [⟨"Npm", r⟩]
    fun c member => List.mem_singleton.mp member ▸ both.filled ⟨rfl, rfl⟩ ⟨rfl, rfl⟩
  exact ⟨r, both, intact.1, intact.2.2 rfl⟩

end Inventory
