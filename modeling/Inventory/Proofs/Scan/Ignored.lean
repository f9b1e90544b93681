import Inventory.Proofs.Scan.Integrity

/-! What a result still says of ignored ids. Both passes leave them out, but the roots of a
component are what its recorder found above it, and an ignored root stays among them. -/
namespace Inventory

def ScanResult.Lists (r : ScanResult) (x : String) : Prop :=
  (∃ c ∈ r.components, c.id = x) ∨ r.AtSome fun s => s.edges.contains x = true ∨
    (∃ y, s.HasEdge y x) ∨ s.explicit.contains x = true ∨ s.development.contains x = true

def ScanResult.ListsRoot (r : ScanResult) (x : String) : Prop :=
  ∃ c ∈ r.components, c.roots.containsId x = true

/-- No component that is kept has an ignored root, neither one it came with nor one above it. -/
def FileRecorder.RootsKept (ignored : String → Bool) (f : FileRecorder) : Prop :=
  ∀ d root, f.components.get? d.id = some d → ignored d.id = false →
    (d.roots.containsId root = true ∨
      (f.graph.isExplicit root = true ∧ f.graph.Below d.id root)) → ignored root = false

theorem GraphSummary.Sums.kept {ignored : String → Bool} {graphs : List Graph} {s : GraphSummary}
    (sums : Sums ignored graphs s) {x : String} (named : s.edges.contains x = true ∨
      (∃ y, s.HasEdge y x) ∨ s.explicit.contains x = true ∨ s.development.contains x = true) :
    ignored x = false := by
  rcases named with node | ⟨y, edge⟩ | explicit | development
  · exact ((sums.ids x).mp node).1
  · exact ((sums.edges y x).mp edge).2.1
  · exact ((sums.explicit x).mp explicit).1
  · exact ((sums.development x).mp development).1

variable {a : ScanArguments} {contributions : List Contribution} {admits : Detected → Prop}
  (steady : ∀ d frameworks, admits d → admits { d with frameworks })
  (filled : FilledWith admits contributions)

include steady filled in
/-- The roots of the components of a result are those that the recorders know of. -/
theorem root_listed_iff {x : String} :
    (∃ c ∈ mergedComponents a contributions, c.roots.containsId x = true) ↔
      ∃ location f d, HasFile contributions location f ∧ f.components.get? d.id = some d ∧
        a.ignores d.id = false ∧ (d.roots.containsId x = true ∨
          (f.graph.isExplicit x = true ∧ f.graph.Below d.id x)) := by
  constructor
  · rintro ⟨c, member, listed⟩
    obtain ⟨o, observed, same, listed⟩ := observed_of_component (Detected.inherited_root x)
      (Detected.inherited_root x) (fun _ _ => id) member listed
    obtain ⟨location, f, d, file, stored, rfl⟩ := (observed_iff steady filled).mp observed
    have kept : a.ignores d.id = false := by
      rw [show d.id = c.id from same]
      exact ignores_of_mem_mergedComponents member
    have sound := sound_of_hasFile steady filled file
    exact ⟨location, f, d, file, stored, kept,
      (FileRecorder.containsId_roots_observe sound stored location x).mp listed⟩
  · rintro ⟨location, f, d, file, stored, kept, source⟩
    have sound := sound_of_hasFile steady filled file
    have observed : Observed contributions (f.observe location d) :=
      (observed_iff steady filled).mpr ⟨location, f, d, file, stored, rfl⟩
    obtain ⟨c, member, same⟩ := exists_component.mpr ⟨kept, _, observed, rfl⟩
    exact ⟨c, member, component_of_observed (Detected.lasting_root x) (Detected.lasting_root x)
      (fun _ _ => id) member observed same.symm
      ((FileRecorder.containsId_roots_observe sound stored location x).mpr source)⟩

/-- An ignored id is nowhere in a result but among roots, and not there either exactly if no
component that is kept has an ignored root. -/
theorem ignored_unlisted_iff (a : ScanArguments) (correlationId : String) (time : Instant)
    (outcome : Outcome) (detectors : List DetectorInfo) (contributions : List Contribution)
    (filled : FilledWith (fun _ => True) contributions) :
    let result := assemble a correlationId time outcome detectors contributions
    (∀ x, a.ignores x = true → ¬ result.Lists x) ∧
      ((∀ x, a.ignores x = true → ¬ result.Lists x ∧ ¬ result.ListsRoot x) ↔
        ∀ location f, HasFile contributions location f → f.RootsKept a.ignores) := by
  intro result
  have steady : ∀ (d : Detected) (frameworks : StringSet), True → True := fun _ _ => id
  have unlisted : ∀ x, a.ignores x = true → ¬ result.Lists x := by
    rintro x ignored (⟨c, member, rfl⟩ | ⟨location, s, found, named⟩)
    · exact absurd ignored (by simp [ignores_of_mem_mergedComponents member])
    · exact absurd ignored (by simp [(sums_of_get? found).kept named])
  refine ⟨unlisted, fun hidden location f file d root stored kept source => ?_, ?_⟩
  · by_contra ignored
    have listed : result.ListsRoot root :=
      (root_listed_iff steady filled).mpr ⟨location, f, d, file, stored, kept, source⟩
    exact (hidden root (by simpa using ignored)).2 listed
  · intro kept x ignored
    refine ⟨unlisted x ignored, fun listed => ?_⟩
    obtain ⟨location, f, d, file, stored, keeps, source⟩ :=
      (root_listed_iff steady filled).mp listed
    exact absurd ignored (by simp [kept location f file d x stored keeps source])

theorem ignored_unlisted_below_root : ∃ r : Recorder, r.AppWithLib ∧
    let a : ScanArguments := { source := "/src", ignored := ["app*"] }
    ∀ x, a.ignores x = true →
      ¬ (assemble a "" default .success [] [⟨"Npm", r⟩]).Lists x := by
  obtain ⟨r, both⟩ := Recorder.exists_appWithLib
  have written : r.Filled fun _ => True := both.filled trivial trivial
  exact ⟨r, both, (ignored_unlisted_iff { source := "/src", ignored := ["app*"] } "" default
    .success [] [⟨"Npm", r⟩] fun _ member => List.mem_singleton.mp member ▸ written).1⟩

/-- The application is ignored and yet it is a root of the library. -/
theorem ignored_root_listed : ∃ r : Recorder, r.AppWithLib ∧
    let app : Component := .npm "app" "1" none
    let a : ScanArguments := { source := "/src", ignored := ["app*"] }
    a.ignores app.id = true ∧
      (assemble a "" default .success [] [⟨"Npm", r⟩]).ListsRoot app.id := by
  obtain ⟨r, both⟩ := Recorder.exists_appWithLib
  have filled : FilledWith Detected.Plain [⟨"Npm", r⟩] :=
    fun _ member => List.mem_singleton.mp member ▸ both.filled ⟨rfl, rfl⟩ ⟨rfl, rfl⟩
  obtain ⟨r₁, first, second⟩ := both
  have file := Recorder.get?_write second
  rw [Recorder.get?_write first, Option.getD_some] at file
  have there : HasFile [⟨"Npm", r⟩] "/src/package.json" _ := ⟨_, List.mem_singleton_self _, file⟩
  have sound := sound_of_hasFile plain_steady filled there
  obtain ⟨d, same, stored⟩ : ∃ d : Detected, d.id = "lib 2 - Npm" ∧ _ :=
    FileRecorder.exists_stored sound (by decide)
  refine ⟨r, ⟨r₁, first, second⟩, by decide, (root_listed_iff plain_steady filled).mpr
    ⟨_, _, d, there, stored, same ▸ by decide, .inr ⟨by decide, ?_⟩⟩⟩
  exact same ▸ .single ⟨_, rfl, by decide⟩

end Inventory
