import Inventory.Proofs.Component.Order
import Inventory.Proofs.Scan.Summary

/-! Results in any order of the detectors. The graphs are the same, and so are the components but
for what stands for them: a component itself, its roots and its metadata are each one of those that
were registered, and which one hangs on the order. -/
namespace Inventory

namespace GraphSummary

variable {ignored : String → Bool} {graphs graphs' : List Graph} {s s' : GraphSummary}

theorem hasEdge_iff {x y : String} :
    s.HasEdge x y ↔ (s.edges.get? x).any (·.contains y) = true := by
  rw [HasEdge, Option.any_eq_true]

/-- The same graphs come to the same summary. -/
theorem Sums.eq (sums : Sums ignored graphs s) (sums' : Sums ignored graphs' s')
    (same : ∀ g, g ∈ graphs ↔ g ∈ graphs') : s = s' := by
  have edges : s.edges = s'.edges := by
    refine StringSet.ext_sets (fun x => ?_) fun x y => ?_
    · rw [Bool.eq_iff_iff, sums.ids, sums'.ids]
      simp only [same]
    · rw [Bool.eq_iff_iff, ← hasEdge_iff, ← hasEdge_iff, sums.edges, sums'.edges]
      simp only [same]
  have explicit : s.explicit = s'.explicit := StringSet.ext fun x => by
    rw [Bool.eq_iff_iff, sums.explicit, sums'.explicit]
    simp only [same]
  have development : s.development = s'.development := StringSet.ext fun x => by
    rw [Bool.eq_iff_iff, sums.development, sums'.development]
    simp only [same]
  cases s
  cases s'
  simp_all only

end GraphSummary

variable {a : ScanArguments} {contributions contributions' : List Contribution}

theorem exists_mem_graphsAt {location : String} {s : GraphSummary}
    (found : (summarizeGraphs a contributions).get? location = some s) :
    ∃ g, g ∈ graphsAt a contributions location := by
  rw [get?_summarizeGraphs] at found
  cases graphs : graphsAt a contributions location with
  | nil => simp [graphs] at found
  | cons g rest => exact ⟨g, List.mem_cons_self⟩

theorem summarizeGraphs_congr (same : ∀ c, c ∈ contributions ↔ c ∈ contributions') :
    summarizeGraphs a contributions = summarizeGraphs a contributions' := by
  have graphs (location : String) (g : Graph) : g ∈ graphsAt a contributions location ↔
      g ∈ graphsAt a contributions' location := by
    simp only [mem_graphsAt, HasFile, same]
  refine SortedMap.ext_get? fun location => ?_
  cases found : (summarizeGraphs a contributions).get? location with
  | none =>
    cases found' : (summarizeGraphs a contributions').get? location with
    | none => rfl
    | some s' =>
      obtain ⟨g, member⟩ := exists_mem_graphsAt found'
      obtain ⟨s, found''⟩ := exists_summary ((graphs location g).mpr member)
      exact absurd (found.symm.trans found'') (by simp)
  | some s =>
    obtain ⟨g, member⟩ := exists_mem_graphsAt found
    obtain ⟨s', found'⟩ := exists_summary ((graphs location g).mp member)
    rw [found', (sums_of_get? found).eq (sums_of_get? found') (graphs location)]

def Stored (contributions : List Contribution) (d : Detected) : Prop :=
  ∃ location f, HasFile contributions location f ∧ d ∈ f.components.values

structure Represents (stored : Detected → Prop) (c : Detected) : Prop where
  component : ∃ d, stored d ∧ d.id = c.id ∧ d.component = c.component
  roots : ∀ id root, c.roots.byId.get? id = some root →
    ∃ d, stored d ∧ ((d.id = c.id ∧ d.roots.byId.get? id = some root) ∨ d.component = root)
  metadata : ∀ key value, c.metadata.get? key = some value →
    ∃ d, stored d ∧ d.id = c.id ∧ d.metadata.get? key = some value

/-- What a component has inherited was observed of something that was stored. -/
theorem exists_stored_of_inherited {φ : Detected → Prop} {c : Detected}
    (inherited : Detected.Inherited φ)
    (located : ∀ detector d, φ (d.located a.source detector) → φ d)
    (member : c ∈ mergedComponents a contributions) (holds : φ c) :
    ∃ location f d, HasFile contributions location f ∧ d ∈ f.components.values ∧ d.id = c.id ∧
      φ (f.observe location d) := by
  obtain ⟨_, ⟨source, origin, location, f, file, here⟩, same, holds⟩ :=
    observed_of_component inherited inherited located member holds
  obtain ⟨d, kept, rfl⟩ := List.mem_map.mp here
  exact ⟨location, f, d, ⟨source, origin, file⟩, (List.mem_filter.mp kept).1, same, holds⟩

/-- A root that is observed came with the component or is stored in the same manifest. -/
theorem exists_root_of_observe {f : FileRecorder} {location id : String} {d : Detected}
    {root : Component} (found : (f.observe location d).roots.byId.get? id = some root) :
    d.roots.byId.get? id = some root ∨ ∃ e ∈ f.components.values, e.component = root := by
  rw [FileRecorder.observe, ComponentSet.get?_insertAll, Option.or_eq_some_iff] at found
  rcases found with preset | ⟨_, above⟩
  · exact .inl preset
  · obtain ⟨x, _, known⟩ := List.mem_filterMap.mp (List.mem_of_find?_eq_some above)
    obtain ⟨e, stored, rfl⟩ := Option.map_eq_some_iff.mp known
    exact .inr ⟨e, SortedMap.mem_values.mpr ⟨x, stored⟩, rfl⟩

theorem represents_of_mem {c : Detected} (member : c ∈ mergedComponents a contributions) :
    Represents (Stored contributions) c := by
  constructor
  case component =>
    obtain ⟨location, f, d, file, stored, same, said⟩ := exists_stored_of_inherited
      (Detected.inherited_component c.component) (fun _ _ => id) member rfl
    exact ⟨d, ⟨location, f, file, stored⟩, same, said⟩
  case roots =>
    intro x root found
    obtain ⟨location, f, d, file, stored, same, said⟩ := exists_stored_of_inherited
      (Detected.inherited_rootAt x root) (fun _ _ => id) member found
    rcases exists_root_of_observe said with preset | ⟨e, stored', rfl⟩
    · exact ⟨d, ⟨location, f, file, stored⟩, .inl ⟨same, preset⟩⟩
    · exact ⟨e, ⟨location, f, file, stored'⟩, .inr rfl⟩
  case metadata =>
    intro key value found
    obtain ⟨location, f, d, file, stored, same, said⟩ := exists_stored_of_inherited
      (Detected.inherited_metadata key value) (fun _ _ => id) member found
    exact ⟨d, ⟨location, f, file, stored⟩, same, said⟩

/-- The order of the detectors settles nothing but what stands for the components. -/
theorem assemble_perm (a : ScanArguments) (correlationId : String) (time : Instant)
    (outcome : Outcome) (detectors : List DetectorInfo)
    (perm : contributions.Perm contributions') :
    let result := assemble a correlationId time outcome detectors contributions
    let result' := assemble a correlationId time outcome detectors contributions'
    result.graphs = result'.graphs ∧
      List.Forall₂ Detected.Alike result.components result'.components ∧
      (∀ c ∈ result.components, Represents (Stored contributions) c) ∧
        ∀ c ∈ result'.components, Represents (Stored contributions) c := by
  intro result result'
  have same (c : Contribution) : c ∈ contributions ↔ c ∈ contributions' := perm.mem_iff
  have stored : Stored contributions = Stored contributions' := by
    funext d
    simp only [Stored, HasFile, same]
  refine ⟨summarizeGraphs_congr same, Detected.mergeAll_alike a.rule fun o => ?_,
    fun c => represents_of_mem, fun c member => ?_⟩
  · simp only [List.mem_flatMap, same]
  · rw [stored]
    exact represents_of_mem member

/-- One package was registered in two spellings, which differ in case. -/
def TwoSpellings (r r' : Recorder) : Prop :=
  ({} : Recorder).register "/src/requirements.txt" { component := .pip "Flask" "1" none none } {} =
      .ok r ∧
    ({} : Recorder).register "/src/requirements.txt" { component := .pip "flask" "1" none none }
      {} = .ok r'

theorem assemble_perm_of_two_spellings : ∃ r r' : Recorder, TwoSpellings r r' ∧
    let result := assemble { source := "/src" } "" default .success []
    (result [⟨"First", r⟩, ⟨"Second", r'⟩]).graphs =
        (result [⟨"Second", r'⟩, ⟨"First", r⟩]).graphs ∧
      List.Forall₂ Detected.Alike (result [⟨"First", r⟩, ⟨"Second", r'⟩]).components
        (result [⟨"Second", r'⟩, ⟨"First", r⟩]).components := by
  refine ⟨_, _, ⟨rfl, rfl⟩, ?_⟩
  obtain ⟨graphs, alike, _⟩ :=
    assemble_perm { source := "/src" } "" default .success [] (.swap ⟨"Second", _⟩ ⟨"First", _⟩ [])
  exact ⟨graphs, alike⟩

/-- Which spelling a result gives hangs on the order, although a name is a part of the identity. -/
theorem identity_hangs_on_order : ∃ r r' : Recorder, TwoSpellings r r' ∧
    let result := assemble { source := "/src" } "" default .success []
    (result [⟨"First", r⟩, ⟨"Second", r'⟩]).components.map (·.component.identity) ≠
      (result [⟨"Second", r'⟩, ⟨"First", r⟩]).components.map (·.component.identity) :=
  ⟨_, _, ⟨rfl, rfl⟩, by decide +kernel⟩

end Inventory
