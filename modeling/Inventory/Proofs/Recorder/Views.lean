import Inventory.Proofs.Component.Identity
import Inventory.Proofs.Graph.Roots
import Inventory.Proofs.Recorder.Filled
import Inventory.Recorder.Views

/-! What is read off a recorder. In a sound one every id of a graph is observed, and every root that
its graph names is stored. -/
namespace Inventory

variable {admits : Detected → Prop}

namespace FileRecorder

variable {f : FileRecorder} {location id : String} {o d : Detected}

/-- Each component that is stored is observed once. -/
theorem mem_observations (sound : f.Sound admits) :
    o ∈ f.observations location ↔
      ∃ d, f.components.get? d.id = some d ∧ o = f.observe location d := by
  simp only [observations, List.mem_map, List.mem_filter, SortedMap.mem_values]
  constructor
  · rintro ⟨d, ⟨⟨key, found⟩, _⟩, rfl⟩
    exact ⟨d, (sound.keyed key d found).1.symm ▸ found, rfl⟩
  · rintro ⟨d, found, rfl⟩
    refine ⟨d, ⟨⟨d.id, found⟩, ?_⟩, rfl⟩
    rw [← sound.stored]
    exact SortedMap.contains_iff.mpr ⟨d, found⟩

theorem contains_of_get? (sound : f.Sound admits) (found : f.components.get? d.id = some d) :
    f.graph.contains d.id = true := by
  rw [← sound.stored]
  exact SortedMap.contains_iff.mpr ⟨d, found⟩

theorem exists_stored (sound : f.Sound admits) (here : f.graph.contains id = true) :
    ∃ d, d.id = id ∧ f.components.get? d.id = some d := by
  rw [← sound.stored] at here
  obtain ⟨d, found⟩ := SortedMap.contains_iff.mp here
  have key := (sound.keyed id d found).1
  exact ⟨d, key, key.symm ▸ found⟩

theorem contains_filePaths_observe (f : FileRecorder) (location : String) (d : Detected)
    (path : String) : (f.observe location d).filePaths.contains path = true ↔
      location = path ∨ d.filePaths.contains path = true ∨
        f.graph.relatedFiles.contains path = true := by
  simp [observe, or_assoc]

/-- The roots of a component are those it came with and the explicit ones above it. -/
theorem containsId_roots_observe (sound : f.Sound admits)
    (found : f.components.get? d.id = some d) (location root : String) :
    (f.observe location d).roots.containsId root = true ↔
      d.roots.containsId root = true ∨
        (f.graph.isExplicit root = true ∧ f.graph.Below d.id root) := by
  have above : ((f.graph.explicitRoots d.id).toOption.getD .empty).contains root = true ↔
      f.graph.isExplicit root = true ∧ f.graph.Below d.id root :=
    Graph.contains_explicitRoots d.component.id_ne_empty (contains_of_get? sound found)
  rw [← above]
  simp only [observe, ComponentSet.containsId_insertAll, Bool.or_eq_true, List.any_eq_true,
    List.mem_filterMap, StringSet.mem_toList, beq_iff_eq]
  refine or_congr_right ⟨?_, fun listed => ?_⟩
  · rintro ⟨c, ⟨x, listed, stored⟩, rfl⟩
    obtain ⟨e, entry, rfl⟩ := Option.map_eq_some_iff.mp stored
    have key : e.component.id = x := (sound.keyed x e entry).1
    exact key ▸ listed
  · have here := Graph.contains_of_isExplicit (above.mp listed).1
    obtain ⟨e, rfl, entry⟩ := exists_stored sound here
    exact ⟨e.component, ⟨e.id, listed, by simp [component?, entry]⟩, rfl⟩

end FileRecorder

theorem mem_observations_flatMap {r : Recorder} {o : Detected} :
    o ∈ r.files.entries.flatMap (fun e => e.2.observations e.1) ↔
      ∃ location f, r.files.get? location = some f ∧ o ∈ f.observations location := by
  simp only [List.mem_flatMap, Prod.exists, SortedMap.get?_eq_some_iff]

end Inventory
