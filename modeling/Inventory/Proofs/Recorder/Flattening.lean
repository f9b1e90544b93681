import Inventory.Proofs.Recorder.History
import Inventory.Proofs.Recorder.Views

/-! The components of a recorder, each id once. What the recorders of the manifests hold goes
through one merge, and it comes to what was registered in all manifests together. -/
namespace Inventory

open FileRecorder (Registration ofId)

variable {admits : Detected → Prop} {id : String}

namespace FileRecorder

variable {f : FileRecorder} (sound : f.Sound admits) (location : String)

theorem hasFramework_iff {name : String} : f.hasFramework id name = true ↔
    ∃ d, f.components.get? id = some d ∧
      (f.observe location d).frameworks.contains name = true := by
  rw [hasFramework, frameworks, SortedMap.get?_map]
  cases f.components.get? id <;> simp [observe]

include sound

/-- What is said of an id if it is stored at all, together with what its stored component says. -/
theorem exists_stored_or {A : Prop} {B : Detected → Prop} :
    (∃ d, f.components.get? id = some d ∧ (A ∨ B d)) ↔
      f.graph.contains id = true ∧ (A ∨ ∃ d, f.components.get? id = some d ∧ B d) := by
  rw [← sound.stored, SortedMap.contains_iff]
  constructor
  · rintro ⟨d, stored, here | of_stored⟩
    · exact ⟨⟨d, stored⟩, .inl here⟩
    · exact ⟨⟨d, stored⟩, .inr ⟨d, stored, of_stored⟩⟩
  · rintro ⟨⟨d, stored⟩, here | ⟨e, stored', of_stored⟩⟩
    · exact ⟨d, stored, .inl here⟩
    · exact ⟨e, stored', .inr of_stored⟩

theorem exists_observe_filePath {path : String} :
    (∃ d, f.components.get? id = some d ∧
        (f.observe location d).filePaths.contains path = true) ↔
      f.graph.contains id = true ∧
        ((location = path ∨ f.graph.relatedFiles.contains path = true) ∨
          ∃ d, f.components.get? id = some d ∧ d.filePaths.contains path = true) := by
  rw [← exists_stored_or sound]
  simp only [contains_filePaths_observe, or_comm, or_left_comm]

theorem exists_observe_root {root : String} :
    (∃ d, f.components.get? id = some d ∧
        (f.observe location d).roots.containsId root = true) ↔
      f.graph.contains id = true ∧
        ((f.graph.isExplicit root = true ∧ f.graph.Below id root) ∨
          ∃ d, f.components.get? id = some d ∧ d.roots.containsId root = true) := by
  rw [← exists_stored_or sound]
  refine exists_congr fun d => and_congr_right fun stored => ?_
  obtain rfl := (sound.keyed id d stored).1
  rw [containsId_roots_observe sound stored, or_comm]

/-- What a graph knows of an id is observed of it, provided it knows of its own ids only. -/
theorem exists_observe_known {P : Graph → String → Prop}
    (inside : P f.graph id → f.graph.contains id = true) :
    (∃ d, f.components.get? id = some d ∧ P f.graph d.id) ↔ P f.graph id := by
  constructor
  · rintro ⟨d, stored, said⟩
    exact (sound.keyed id d stored).1 ▸ said
  · intro said
    obtain ⟨d, rfl, stored⟩ := exists_stored sound (inside said)
    exact ⟨d, stored, said⟩

end FileRecorder

namespace Recorder

variable {r : Recorder} {c : Detected} {ds : List Detected} {log : Log}

/-- It is enough to compare what holds of each manifest. -/
theorem exists_file_congr {P Q : String → FileRecorder → Prop}
    (each : ∀ location f, r.files.get? location = some f → (P location f ↔ Q location f)) :
    (∃ location f, r.files.get? location = some f ∧ P location f) ↔
      ∃ location f, r.files.get? location = some f ∧ Q location f :=
  exists_congr fun location => exists_congr fun f => and_congr_right (each location f)

def Observes (r : Recorder) (id : String) (o : Detected) : Prop :=
  ∃ location f d, r.files.get? location = some f ∧ f.components.get? id = some d ∧
    o = f.observe location d

theorem exists_observes {P : Detected → Prop} : (∃ o, r.Observes id o ∧ P o) ↔
    ∃ location f, r.files.get? location = some f ∧
      ∃ d, f.components.get? id = some d ∧ P (f.observe location d) := by
  constructor
  · rintro ⟨_, ⟨location, f, d, file, stored, rfl⟩, holds⟩
    exact ⟨location, f, file, d, stored, holds⟩
  · rintro ⟨location, f, file, d, stored, holds⟩
    exact ⟨_, ⟨location, f, d, file, stored, rfl⟩, holds⟩

theorem exists_mem_iff {ds : List Detected} (among : ∀ o, o ∈ ds ↔ r.Observes id o)
    {P : Detected → Prop} {Q : String → FileRecorder → Prop}
    (each : ∀ location f, r.files.get? location = some f →
      ((∃ d, f.components.get? id = some d ∧ P (f.observe location d)) ↔ Q location f)) :
    (∃ o ∈ ds, P o) ↔ ∃ location f, r.files.get? location = some f ∧ Q location f := by
  simp only [among]
  rw [exists_observes]
  exact exists_file_congr each

section Sound

variable (sound : ∀ location f, r.files.get? location = some f → f.Sound admits)

include sound

theorem observes_iff {o : Detected} : r.Observes id o ↔
    o ∈ r.files.entries.flatMap (fun e => e.2.observations e.1) ∧ o.id = id := by
  rw [mem_observations_flatMap]
  constructor
  · rintro ⟨location, f, d, file, stored, rfl⟩
    obtain rfl := ((sound location f file).keyed id d stored).1
    exact ⟨⟨location, f, file, (FileRecorder.mem_observations (sound location f file)).mpr
      ⟨d, stored, rfl⟩⟩, rfl⟩
  · rintro ⟨⟨location, f, file, here⟩, rfl⟩
    obtain ⟨d, stored, rfl⟩ := (FileRecorder.mem_observations (sound location f file)).mp here
    exact ⟨location, f, d, file, stored, rfl⟩

theorem exists_mem_detected_iff : (∃ c ∈ r.detected, c.id = id) ↔
    ∃ location f, r.files.get? location = some f ∧ f.graph.contains id = true := by
  have observed : (∃ c ∈ r.detected, c.id = id) ↔ ∃ o, r.Observes id o ∧ True := by
    simp only [detected, Detected.exists_mem_mergeAll, observes_iff sound, and_true]
  rw [observed, exists_observes]
  refine exists_file_congr fun location f file => ?_
  rw [← (sound location f file).stored, SortedMap.contains_iff]
  simp only [and_true]

theorem combined_of_mem_detected (member : c ∈ r.detected) :
    ∃ ds, Detected.Combined r.rule ds c ∧ ∀ o, o ∈ ds ↔ r.Observes c.id o := by
  refine ⟨_, Detected.combined_of_mem_mergeAll member, fun o => ?_⟩
  rw [List.mem_filter, observes_iff sound, beq_iff_eq]

theorem explicit_of_mem_detected (member : c ∈ r.detected) : c.explicit = true ↔
    ∃ location f, r.files.get? location = some f ∧ f.graph.isExplicit c.id = true := by
  obtain ⟨ds, combined, among⟩ := combined_of_mem_detected sound member
  rw [combined.explicit, List.any_eq_true]
  exact exists_mem_iff among fun location f file =>
    FileRecorder.exists_observe_known (P := (·.isExplicit · = true)) (sound location f file)
      Graph.contains_of_isExplicit

theorem filePaths_of_mem_detected (member : c ∈ r.detected) (path : String) :
    c.filePaths.contains path = true ↔ ∃ location f, r.files.get? location = some f ∧
      f.graph.contains c.id = true ∧
        ((location = path ∨ f.graph.relatedFiles.contains path = true) ∨
          ∃ d, f.components.get? c.id = some d ∧ d.filePaths.contains path = true) := by
  obtain ⟨ds, combined, among⟩ := combined_of_mem_detected sound member
  rw [combined.filePaths, List.any_eq_true]
  exact exists_mem_iff among fun location f file =>
    FileRecorder.exists_observe_filePath (sound location f file) location

theorem roots_of_mem_detected (member : c ∈ r.detected) (root : String) :
    c.roots.containsId root = true ↔ ∃ location f, r.files.get? location = some f ∧
      f.graph.contains c.id = true ∧
        ((f.graph.isExplicit root = true ∧ f.graph.Below c.id root) ∨
          ∃ d, f.components.get? c.id = some d ∧ d.roots.containsId root = true) := by
  obtain ⟨ds, combined, among⟩ := combined_of_mem_detected sound member
  rw [ComponentSet.containsId, Detected.contains_of_findSome? combined.roots, List.any_eq_true]
  exact exists_mem_iff among fun location f file =>
    FileRecorder.exists_observe_root (sound location f file) location

theorem frameworks_of_mem_detected (member : c ∈ r.detected) (name : String) :
    c.frameworks.contains name = true ↔
      ∃ location f, r.files.get? location = some f ∧ f.hasFramework c.id name = true := by
  obtain ⟨ds, combined, among⟩ := combined_of_mem_detected sound member
  rw [combined.frameworks, List.any_eq_true]
  exact exists_mem_iff among fun location f _ =>
    (FileRecorder.hasFramework_iff location).symm

/-- The flags or scopes that are observed of an id are those that the graphs know. -/
theorem some_mem_map_iff {β : Type} {ds : List Detected} (among : ∀ o, o ∈ ds ↔ r.Observes id o)
    {field : Detected → Option β} {known : Graph → String → Option β}
    (observed : ∀ f location d, field (FileRecorder.observe f location d) = known f.graph d.id)
    (inside : ∀ g id value, known g id = some value → g.contains id = true) (value : β) :
    some value ∈ ds.map field ↔
      some value ∈ r.files.entries.map fun e => known e.2.graph id := by
  simp only [List.mem_map, Prod.exists, ← SortedMap.get?_eq_some_iff]
  refine exists_mem_iff among fun location f file => ?_
  simp only [observed]
  exact FileRecorder.exists_observe_known (P := (known · · = some value)) (sound location f file)
    (inside _ _ value)

theorem development_of_mem_detected (member : c ∈ r.detected) : c.development =
    r.rule.effective (r.files.entries.map fun e => e.2.graph.development? c.id) := by
  obtain ⟨ds, combined, among⟩ := combined_of_mem_detected sound member
  rw [combined.development]
  exact r.rule.effective_congr <| some_mem_map_iff sound among (fun _ _ _ => rfl)
    fun _ _ _ => Graph.contains_of_development

theorem scope_of_mem_detected (member : c ∈ r.detected) : c.scope =
    (r.files.entries.map fun e => e.2.graph.scope? c.id).foldl Scope.merge none := by
  obtain ⟨ds, combined, among⟩ := combined_of_mem_detected sound member
  rw [combined.scope]
  exact Scope.foldl_merge_congr <| some_mem_map_iff sound among (fun _ _ _ => rfl)
    fun _ _ _ => Graph.contains_of_scope

end Sound

/-- What was registered in a manifest is in its graph. -/
theorem Logged.exists_file (logged : Logged log r) {location : String} {c : Registration}
    (member : (location, c) ∈ log) :
    ∃ f, r.files.get? location = some f ∧ f.graph.contains c.id = true := by
  have here : (r.fileAt location).graph.contains c.id = true := by
    rw [(logged.holds location).ids, List.any_eq_true]
    exact ⟨c, mem_callsAt.mpr member, beq_self_eq_true _⟩
  cases file : r.files.get? location with
  | none => simp [fileAt, file, newFile, Graph.contains] at here
  | some f => exact ⟨f, rfl, fileAt_of_get? file ▸ here⟩

/-- Something is registered in some manifest if and only if it is in the log. -/
theorem Logged.exists_call (logged : Logged log r) {P : Registration → Prop} :
    (∃ location f, r.files.get? location = some f ∧ ∃ c ∈ callsAt log location, P c) ↔
      ∃ e ∈ log, P e.2 := by
  constructor
  · rintro ⟨location, f, _, c, member, holds⟩
    exact ⟨(location, c), mem_callsAt.mp member, holds⟩
  · rintro ⟨⟨location, c⟩, member, holds⟩
    obtain ⟨f, file, _⟩ := logged.exists_file member
    exact ⟨location, f, file, c, mem_callsAt.mpr member, holds⟩

theorem some_mem_ofId {calls : List Registration} {β : Type} {said : Registration → Option β}
    {value : β} : some value ∈ (ofId calls id).map said ↔
      ∃ c ∈ calls, c.id = id ∧ said c = some value := by
  simp [ofId, and_assoc]

/-- What the graphs know of an id comes to what was said of it in the log. -/
theorem Logged.merged (logged : Logged log r) {β : Type} {F : List (Option β) → Option β}
    (congr : ∀ {a b}, (∀ value, some value ∈ a ↔ some value ∈ b) → F a = F b)
    (grouped : ∀ (g : String × FileRecorder → List (Option β)) l,
      F (List.flatMap g l) = F (List.map (fun x => F (g x)) l))
    (known : Graph → Option β) (said : Registration → Option β)
    (holds : ∀ key, known (r.fileAt key).graph = F ((ofId (callsAt log key) id).map said)) :
    F (r.files.entries.map fun e => known e.2.graph) =
      F ((ofId (log.map (·.2)) id).map said) := by
  have each : ∀ e ∈ r.files.entries,
      known e.2.graph = F ((ofId (callsAt log e.1) id).map said) := by
    rintro ⟨location, f⟩ member
    rw [← holds location, fileAt_of_get? (SortedMap.get?_eq_some_iff.mpr member)]
  -- Manifest by manifest or all at once: both lists hold the same observations.
  rw [List.map_congr_left each, ← grouped]
  refine congr fun value => ⟨fun among => ?_, fun among => ?_⟩
  · obtain ⟨⟨location, f⟩, _, here⟩ := List.mem_flatMap.mp among
    obtain ⟨c, member, same, said⟩ := some_mem_ofId.mp here
    exact some_mem_ofId.mpr ⟨c, List.mem_map_of_mem (mem_callsAt.mp member), same, said⟩
  · obtain ⟨_, member, same, said⟩ := some_mem_ofId.mp among
    obtain ⟨⟨location, c⟩, there, rfl⟩ := List.mem_map.mp member
    obtain ⟨f, file, _⟩ := logged.exists_file there
    exact List.mem_flatMap.mpr ⟨(location, f), SortedMap.get?_eq_some_iff.mp file,
      some_mem_ofId.mpr ⟨c, mem_callsAt.mpr there, same, said⟩⟩

/-- A component of a recorder says of its id what was registered and what the graphs came to. -/
structure Flattened (r : Recorder) (log : Log) (c : Detected) : Prop where
  filePaths : ∀ path, c.filePaths.contains path = true ↔
    ∃ location f, r.files.get? location = some f ∧ f.graph.contains c.id = true ∧
      ((location = path ∨ f.graph.relatedFiles.contains path = true) ∨
        ∃ d, f.components.get? c.id = some d ∧ d.filePaths.contains path = true)
  roots : ∀ root, c.roots.containsId root = true ↔
    ∃ location f, r.files.get? location = some f ∧ f.graph.contains c.id = true ∧
      ((f.graph.isExplicit root = true ∧ f.graph.Below c.id root) ∨
        ∃ d, f.components.get? c.id = some d ∧ d.roots.containsId root = true)
  development : c.development =
    r.rule.effective ((ofId (log.map (·.2)) c.id).map (·.usage.development))
  scope : ∀ s, c.scope = some s ↔
    Scope.Highest ((ofId (log.map (·.2)) c.id).map (·.usage.scope)) s
  explicit : c.explicit = true ↔
    ∃ location f, r.files.get? location = some f ∧ f.graph.isExplicit c.id = true
  frameworks : ∀ name, c.frameworks.contains name = true ↔
    ∃ e ∈ log, e.2.id = c.id ∧ e.2.brings name = true

theorem flattened_of_mem_detected
    (sound : ∀ location f, r.files.get? location = some f → f.Sound admits)
    (logged : Logged log r) (member : c ∈ r.detected) : Flattened r log c where
  filePaths := filePaths_of_mem_detected sound member
  roots := roots_of_mem_detected sound member
  development := by
    rw [development_of_mem_detected sound member]
    exact logged.merged r.rule.effective_congr r.rule.effective_flatMap (·.development? c.id)
      (·.usage.development) fun key => (logged.holds key).development c.id
  scope s := by
    rw [scope_of_mem_detected sound member, ← Scope.foldl_merge_none]
    have merged := logged.merged (F := (·.foldl Scope.merge none)) Scope.foldl_merge_congr
      Scope.foldl_merge_flatMap (·.scope? c.id) (·.usage.scope)
      fun key => (logged.holds key).scope c.id
    exact iff_of_eq (congrArg (· = some s) merged)
  explicit := explicit_of_mem_detected sound member
  frameworks name := by
    rw [frameworks_of_mem_detected sound member,
      ← logged.exists_call (P := fun e => e.id = c.id ∧ e.brings name = true)]
    refine exists_file_congr fun location f file => ?_
    have holds := (logged.holds location).frameworks c.id name
    rw [fileAt_of_get? file] at holds
    rw [holds, List.any_eq_true]
    simp only [Bool.and_eq_true, beq_iff_eq]

/-- The components of a recorder are those that were registered, each once. -/
theorem detected_flattens (logged : Logged log r) :
    r.detected.Pairwise (·.id < ·.id) ∧
      (∀ id, (∃ c ∈ r.detected, c.id = id) ↔ ∃ e ∈ log, e.2.id = id) ∧
      ∀ c ∈ r.detected, Flattened r log c := by
  have filled : Filled (fun _ => True) r := logged.filled fun _ _ => trivial
  have sound := filled.sound fun _ _ _ => trivial
  refine ⟨Detected.pairwise_mergeAll .., fun id => ?_,
    fun c member => flattened_of_mem_detected sound logged member⟩
  rw [exists_mem_detected_iff sound, ← logged.exists_call (P := (·.id = id))]
  refine exists_file_congr fun location f file => ?_
  have ids := (logged.holds location).ids id
  rw [fileAt_of_get? file] at ids
  rw [ids, List.any_eq_true]
  simp only [beq_iff_eq]

theorem detected_flattens_below_root : ∃ (r : Recorder) (log : Log), r.AppWithLib ∧
    Logged log r ∧ log.length = 2 ∧
      (∃ c ∈ r.detected, c.id = (Component.npm "lib" "2" none).id) ∧
        ∀ c ∈ r.detected, Flattened r log c := by
  obtain ⟨r, r₁, app, lib⟩ := exists_appWithLib
  have logged := (Logged.new true .productionWins).write (.register _ _ _ app)
  have logged := logged.write (.register _ _ _ lib)
  obtain ⟨_, listed, flattened⟩ := detected_flattens logged
  exact ⟨r, _, ⟨r₁, app, lib⟩, logged, rfl, (listed _).mpr ⟨_, .tail _ (.head _), rfl⟩, flattened⟩

end Recorder

end Inventory
