import Inventory.Proofs.Recorder.Views
import Inventory.Scan.Assembly

/-! The components of a result. Between an observation in a manifest and a component of the result
lie two merges, one in the recorder of a detector and one of all detectors. What both keep goes
through them. -/
namespace Inventory

variable {a : ScanArguments} {contributions : List Contribution} {c d : Detected} {x : String}

def Observed (contributions : List Contribution) (o : Detected) : Prop :=
  ∃ c ∈ contributions, ∃ location f,
    c.recorder.files.get? location = some f ∧ o ∈ f.observations location

/-- The components of all detectors in one list, each id once. -/
def mergedComponents (a : ScanArguments) (contributions : List Contribution) : List Detected :=
  Detected.mergeAll a.rule (contributions.flatMap (·.detected a))

theorem mem_detected {source : Contribution} : d ∈ source.detected a ↔
    ∃ m ∈ source.recorder.detected, a.ignores m.id = false ∧
      m.located a.source source.detector = d := by
  simp [Contribution.detected, and_assoc]

theorem ignores_of_mem_mergedComponents (member : c ∈ mergedComponents a contributions) :
    a.ignores c.id = false := by
  obtain ⟨d, among, same⟩ := Detected.exists_mem_mergeAll.mp ⟨c, member, rfl⟩
  obtain ⟨source, _, found⟩ := List.mem_flatMap.mp among
  obtain ⟨m, _, kept, rfl⟩ := mem_detected.mp found
  exact same ▸ kept

/-- What a component of the result has inherited was observed. -/
theorem observed_of_component {φ ψ : Detected → Prop} (outer : Detected.Inherited φ)
    (inner : Detected.Inherited ψ) (located : ∀ detector d, φ (d.located a.source detector) → ψ d)
    (member : c ∈ mergedComponents a contributions) (holds : φ c) :
    ∃ o, Observed contributions o ∧ o.id = c.id ∧ ψ o := by
  obtain ⟨d, among, same, holds⟩ := outer.mergeAll member holds
  obtain ⟨source, origin, found⟩ := List.mem_flatMap.mp among
  obtain ⟨m, merged, _, rfl⟩ := mem_detected.mp found
  obtain ⟨o, observed, same', holds⟩ := inner.mergeAll merged (located _ m holds)
  obtain ⟨location, f, file, here⟩ := mem_observations_flatMap.mp observed
  exact ⟨o, ⟨source, origin, location, f, file, here⟩, same'.trans same, holds⟩

/-- What was observed and lasts holds of the component of the result. -/
theorem component_of_observed {φ ψ : Detected → Prop} (outer : Detected.Lasting φ)
    (inner : Detected.Lasting ψ) (located : ∀ detector d, ψ d → φ (d.located a.source detector))
    (member : c ∈ mergedComponents a contributions) {o : Detected}
    (observed : Observed contributions o) (same : o.id = c.id) (holds : ψ o) : φ c := by
  obtain ⟨source, origin, location, f, file, here⟩ := observed
  have among := mem_observations_flatMap.mpr ⟨location, f, file, here⟩
  obtain ⟨m, merged, same'⟩ : ∃ m ∈ source.recorder.detected, m.id = o.id :=
    Detected.exists_mem_mergeAll.mpr ⟨o, among, rfl⟩
  have said := inner.mergeAll merged among same'.symm holds
  have id : m.id = c.id := same'.trans same
  have kept : m.located a.source source.detector ∈ source.detected a :=
    mem_detected.mpr ⟨m, merged, id ▸ ignores_of_mem_mergedComponents member, rfl⟩
  exact outer.mergeAll member (List.mem_flatMap.mpr ⟨source, origin, kept⟩) id
    (located source.detector m said)

/-- The result has a component for every id that was observed and is not ignored. -/
theorem exists_component : (∃ c ∈ mergedComponents a contributions, c.id = x) ↔
    a.ignores x = false ∧ ∃ o, Observed contributions o ∧ o.id = x := by
  constructor
  · rintro ⟨c, member, rfl⟩
    -- That there was an observation is inherited too.
    have any : Detected.Inherited fun _ => True := by
      intro rule ds c combined _
      cases ds with
      | nil => exact absurd combined.component (by simp)
      | cons d ds => exact ⟨d, List.mem_cons_self, trivial⟩
    obtain ⟨o, observed, same, _⟩ :=
      observed_of_component any any (fun _ _ => id) member trivial
    exact ⟨ignores_of_mem_mergedComponents member, o, observed, same⟩
  · rintro ⟨kept, o, ⟨source, origin, location, f, file, here⟩, rfl⟩
    have among := mem_observations_flatMap.mpr ⟨location, f, file, here⟩
    obtain ⟨m, merged, same⟩ : ∃ m ∈ source.recorder.detected, m.id = o.id :=
      Detected.exists_mem_mergeAll.mpr ⟨o, among, rfl⟩
    have found : m.located a.source source.detector ∈ source.detected a :=
      mem_detected.mpr ⟨m, merged, same ▸ kept, rfl⟩
    exact Detected.exists_mem_mergeAll.mpr
      ⟨_, List.mem_flatMap.mpr ⟨source, origin, found⟩, same⟩

section Sound

variable {admits : Detected → Prop} {f : FileRecorder} {location : String}

/-- Every recorder that contributed was filled with components that `admits` allows. -/
def FilledWith (admits : Detected → Prop) (contributions : List Contribution) : Prop :=
  ∀ c ∈ contributions, c.recorder.Filled admits

def HasFile (contributions : List Contribution) (location : String) (f : FileRecorder) : Prop :=
  ∃ c ∈ contributions, c.recorder.files.get? location = some f

variable (steady : ∀ d frameworks, admits d → admits { d with frameworks })
  (filled : FilledWith admits contributions)

include steady filled in
theorem sound_of_hasFile (file : HasFile contributions location f) : f.Sound admits := by
  obtain ⟨c, member, found⟩ := file
  exact (filled c member).sound steady location f found

include steady filled in
theorem observed_iff {o : Detected} : Observed contributions o ↔ ∃ location f d,
    HasFile contributions location f ∧ f.components.get? d.id = some d ∧
      o = f.observe location d := by
  constructor
  · rintro ⟨c, member, location, f, found, here⟩
    have sound := (filled c member).sound steady location f found
    obtain ⟨d, stored, rfl⟩ := (FileRecorder.mem_observations sound).mp here
    exact ⟨location, f, d, ⟨c, member, found⟩, stored, rfl⟩
  · rintro ⟨location, f, d, ⟨c, member, found⟩, stored, rfl⟩
    have sound := (filled c member).sound steady location f found
    exact ⟨c, member, location, f, found,
      (FileRecorder.mem_observations sound).mpr ⟨d, stored, rfl⟩⟩

include steady filled in
/-- What is in the graph of a manifest is observed there. -/
theorem exists_observed (file : HasFile contributions location f)
    (here : f.graph.contains x = true) : ∃ d, d.id = x ∧ f.components.get? d.id = some d ∧
      Observed contributions (f.observe location d) := by
  obtain ⟨d, same, stored⟩ :=
    FileRecorder.exists_stored (sound_of_hasFile steady filled file) here
  exact ⟨d, same, stored, (observed_iff steady filled).mpr ⟨location, f, d, file, stored, rfl⟩⟩

include steady filled in
theorem exists_component_iff : (∃ c ∈ mergedComponents a contributions, c.id = x) ↔
    a.ignores x = false ∧ ∃ location f, HasFile contributions location f ∧
      f.graph.contains x = true := by
  rw [exists_component]
  refine and_congr_right fun _ => ⟨?_, ?_⟩
  · rintro ⟨o, observed, rfl⟩
    obtain ⟨location, f, d, file, stored, rfl⟩ := (observed_iff steady filled).mp observed
    have sound := sound_of_hasFile steady filled file
    exact ⟨location, f, file, FileRecorder.contains_of_get? (d := d) sound stored⟩
  · rintro ⟨location, f, file, here⟩
    obtain ⟨d, same, _, observed⟩ := exists_observed steady filled file here
    exact ⟨_, observed, same⟩

end Sound

end Inventory
