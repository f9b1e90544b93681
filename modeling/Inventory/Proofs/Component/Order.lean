import Inventory.Proofs.Component.Merging

/-! Observations of one component in any order. A flag, a scope and every set come to the same
however the observations are ordered, repeated and put into groups; what is chosen among them are
the component itself, its root components and the values of its metadata. -/
namespace Inventory

theorem any_congr {α : Type u} {l m : List α} (same : ∀ x, x ∈ l ↔ x ∈ m) (p : α → Bool) :
    l.any p = m.any p := by
  rw [Bool.eq_iff_iff, List.any_eq_true, List.any_eq_true]
  simp only [same]

/-- Groups may be merged on their own before they are merged with each other. -/
theorem foldl_flatMap {α : Type u} {β : Type v} {op : β → β → β} {e : β}
    (assoc : ∀ a b c, op (op a b) c = op a (op b c)) (left : ∀ a, op e a = a)
    (right : ∀ a, op a e = a) (f : α → List β) (l : List α) :
    (l.flatMap f).foldl op e = (l.map fun x => (f x).foldl op e).foldl op e := by
  have : Std.Associative op := ⟨assoc⟩
  have start (a : β) (m : List β) : m.foldl op a = op a (m.foldl op e) := by
    conv_lhs => rw [← right a]
    exact List.foldl_assoc
  induction l with
  | nil => rfl
  | cons x l ih =>
    rw [List.flatMap_cons, List.foldl_append, start, ih, List.map_cons, List.foldl_cons, left,
      start ((f x).foldl op e)]

namespace DevelopmentRule

variable (rule : DevelopmentRule)

def preferred : DevelopmentRule → Bool
  | productionWins => false
  | developmentWins => true

theorem foldl_merge_eq_some_iff {values : List (Option Bool)} {current : Option Bool}
    {value : Bool} : values.foldl rule.merge current = some value ↔
      some value ∈ current :: values ∧
        (some (!value) ∈ current :: values → value = rule.preferred) := by
  induction values generalizing current with
  | nil => rcases current with _ | _ | _ <;> cases value <;> simp
  | cons x rest ih =>
    rw [List.foldl_cons, ih]
    cases rule <;> rcases current with _ | _ | _ <;> rcases x with _ | _ | _ <;> cases value <;>
      simp [merge, preferred]

/-- It only matters which flags were observed. -/
theorem effective_congr {a b : List (Option Bool)}
    (same : ∀ value, some value ∈ a ↔ some value ∈ b) : rule.effective a = rule.effective b := by
  apply Option.ext
  intro value
  simp [effective, foldl_merge_eq_some_iff, same]

theorem effective_flatMap {α : Type u} (f : α → List (Option Bool)) (l : List α) :
    rule.effective (l.flatMap f) = rule.effective (l.map fun x => rule.effective (f x)) :=
  foldl_flatMap rule.merge_assoc rule.merge_none (fun a => by cases a <;> rfl) f l

end DevelopmentRule

namespace Scope

theorem Highest.congr {a b : List (Option Scope)} {s : Scope}
    (same : ∀ t, some t ∈ a ↔ some t ∈ b) (highest : Highest a s) : Highest b s :=
  ⟨(same s).mp highest.known, fun t member => highest.first t ((same t).mpr member)⟩

/-- Known scopes merge into the highest of them. -/
theorem foldl_merge_none {values : List (Option Scope)} {s : Scope} :
    values.foldl merge none = some s ↔ Highest values s := by
  rw [foldl_merge_eq_some_iff]
  exact ⟨.congr (by simp), .congr (by simp)⟩

theorem foldl_merge_congr {a b : List (Option Scope)} (same : ∀ s, some s ∈ a ↔ some s ∈ b) :
    a.foldl merge none = b.foldl merge none := by
  apply Option.ext
  intro s
  rw [foldl_merge_none, foldl_merge_none]
  exact ⟨.congr same, .congr fun t => (same t).symm⟩

theorem foldl_merge_flatMap {α : Type u} (f : α → List (Option Scope)) (l : List α) :
    (l.flatMap f).foldl merge none = (l.map fun x => (f x).foldl merge none).foldl merge none :=
  foldl_flatMap merge_assoc merge_none (fun a => by cases a <;> rfl) f l

end Scope

namespace Detected

variable {rule : DevelopmentRule} {ds ds' : List Detected} {c d : Detected}

/-- The same of one component, whichever of its observations stands for it. -/
structure Alike (c d : Detected) : Prop where
  id : c.id = d.id
  filePaths : c.filePaths = d.filePaths
  rootIds : c.roots.ids = d.roots.ids
  development : c.development = d.development
  scope : c.scope = d.scope
  explicit : c.explicit = d.explicit
  frameworks : c.frameworks = d.frameworks
  detectorIds : c.detectorIds = d.detectorIds
  metadataKeys : c.metadata.keys = d.metadata.keys

theorem contains_of_findSome? {α : Type u} {m : SortedMap α} {f : Detected → SortedMap α}
    (found : ∀ key, m.get? key = ds.findSome? fun d => (f d).get? key) (key : String) :
    m.contains key = ds.any fun d => (f d).contains key := by
  rw [SortedMap.contains_eq_isSome, found, Bool.eq_iff_iff, List.findSome?_isSome_iff,
    List.any_eq_true]
  simp only [SortedMap.contains_eq_isSome]

theorem Combined.alike (combined : Combined rule ds c) (combined' : Combined rule ds' d)
    (same : ∀ o, o ∈ ds ↔ o ∈ ds') (id : c.id = d.id) : Alike c d where
  id := id
  filePaths := StringSet.ext fun path => by
    rw [combined.filePaths, combined'.filePaths, any_congr same]
  rootIds := SortedMap.keys_eq fun root => by
    rw [contains_of_findSome? combined.roots, contains_of_findSome? combined'.roots,
      any_congr same]
  development := by
    rw [combined.development, combined'.development]
    exact rule.effective_congr fun value => by simp only [List.mem_map, same]
  scope := by
    rw [combined.scope, combined'.scope]
    exact Scope.foldl_merge_congr fun s => by simp only [List.mem_map, same]
  explicit := by rw [combined.explicit, combined'.explicit, any_congr same]
  frameworks := StringSet.ext fun name => by
    rw [combined.frameworks, combined'.frameworks, any_congr same]
  detectorIds := StringSet.ext fun detector => by
    rw [combined.detectorIds, combined'.detectorIds, any_congr same]
  metadataKeys := SortedMap.keys_eq fun key => by
    rw [contains_of_findSome? combined.metadata, contains_of_findSome? combined'.metadata,
      any_congr same]

/-- The same observations come to the same components, one by one. -/
theorem mergeAll_alike (rule : DevelopmentRule) (same : ∀ o, o ∈ ds ↔ o ∈ ds') :
    List.Forall₂ Alike (mergeAll rule ds) (mergeAll rule ds') := by
  refine forall₂_of_sorted (pairwise_mergeAll rule ds) (pairwise_mergeAll rule ds') (fun id => ?_)
    fun c member d member' id => ?_
  · rw [exists_mem_mergeAll, exists_mem_mergeAll]
    simp only [same]
  · refine (combined_of_mem_mergeAll member).alike (combined_of_mem_mergeAll member')
      (fun o => ?_) id
    rw [List.mem_filter, List.mem_filter, same, id]

end Detected

end Inventory
