import Inventory.Component.Detected
import Inventory.Proofs.SortedMap

/-! Merging observations of one component. Known development flags and scopes form semilattices,
sets are united, and of several payloads the first is kept. `Combined` says for each field what a
list of observations comes to; a result has one such component for each id. -/
namespace Inventory

namespace DevelopmentRule

variable (rule : DevelopmentRule)

@[simp] theorem merge_none (value : Option Bool) : rule.merge none value = value := by
  cases value <;> rfl

theorem merge_comm (a b : Option Bool) : rule.merge a b = rule.merge b a := by
  cases a <;> cases b <;> cases rule <;> simp [merge, Bool.and_comm, Bool.or_comm]

theorem merge_assoc (a b c : Option Bool) :
    rule.merge (rule.merge a b) c = rule.merge a (rule.merge b c) := by
  cases a <;> cases b <;> cases c <;> cases rule <;> simp [merge, Bool.and_assoc, Bool.or_assoc]

theorem merge_right_comm (a b c : Option Bool) :
    rule.merge (rule.merge a b) c = rule.merge (rule.merge a c) b := by
  rw [merge_assoc, merge_comm rule b c, ← merge_assoc]

/-- A merged flag is one of the two. -/
theorem merge_eq_some {a b : Option Bool} {value : Bool} (h : rule.merge a b = some value) :
    a = some value ∨ b = some value := by
  revert h
  cases a with
  | none => exact fun h => .inr (by simpa using h)
  | some x =>
    cases b with
    | none => exact .inl
    | some y => cases x <;> cases y <;> cases value <;> cases rule <;> simp [merge]

theorem effective_append (a b : List (Option Bool)) :
    rule.effective (a ++ b) = b.foldl rule.merge (rule.effective a) :=
  List.foldl_append

theorem foldl_merge_eq_some {values : List (Option Bool)} {current : Option Bool} {value : Bool}
    (h : values.foldl rule.merge current = some value) :
    current = some value ∨ some value ∈ values := by
  induction values generalizing current with
  | nil => exact .inl h
  | cons x rest ih =>
    rcases ih h with merged | later
    · rcases rule.merge_eq_some merged with first | here
      · exact .inl first
      · exact .inr (here ▸ List.mem_cons_self)
    · exact .inr (List.mem_cons_of_mem _ later)

/-- An effective flag was observed. -/
theorem mem_of_effective {values : List (Option Bool)} {value : Bool}
    (h : rule.effective values = some value) : some value ∈ values :=
  (rule.foldl_merge_eq_some h).resolve_left (by simp)

end DevelopmentRule

namespace Scope

theorem rank_injective {a b : Scope} (same : a.rank = b.rank) : a = b := by
  cases a <;> cases b <;> simp_all [rank]

@[simp] theorem merge_none (value : Option Scope) : merge none value = value := by
  cases value <;> rfl

theorem merge_comm (a b : Option Scope) : merge a b = merge b a := by
  cases a with
  | none => cases b <;> rfl
  | some a => cases b with
    | none => rfl
    | some b => cases a <;> cases b <;> rfl

theorem merge_assoc (a b c : Option Scope) : merge (merge a b) c = merge a (merge b c) := by
  cases a with
  | none => simp
  | some a => cases b with
    | none => cases c <;> rfl
    | some b => cases c with
      | none => rfl
      | some c => cases a <;> cases b <;> cases c <;> rfl

theorem merge_right_comm (a b c : Option Scope) : merge (merge a b) c = merge (merge a c) b := by
  rw [merge_assoc, merge_comm b c, ← merge_assoc]

structure Highest (values : List (Option Scope)) (s : Scope) : Prop where
  known : some s ∈ values
  first : ∀ t, some t ∈ values → s.rank ≤ t.rank

theorem merge_or (a b : Option Scope) : merge a b = a ∨ merge a b = b := by
  cases a with
  | none => exact .inr (merge_none b)
  | some a => cases b with
    | none => exact .inl rfl
    | some b =>
      simp only [merge]
      split
      · exact .inr rfl
      · exact .inl rfl

theorem rank_merge_le {a : Scope} (b : Option Scope) :
    ∃ s, merge (some a) b = some s ∧ s.rank ≤ a.rank := by
  cases b with
  | none => exact ⟨a, rfl, Nat.le_refl _⟩
  | some b =>
    refine ⟨_, rfl, ?_⟩
    split
    next lower => exact Nat.le_of_lt lower
    next => exact Nat.le_refl _

theorem highest_merge {a b : Option Scope} {values : List (Option Scope)} {s : Scope} :
    Highest (merge a b :: values) s ↔ Highest (a :: b :: values) s := by
  have below (t : Scope) (among : some t ∈ [a, b]) :
      ∃ m, merge a b = some m ∧ m.rank ≤ t.rank := by
    rcases List.mem_pair.mp among with rfl | rfl
    · exact rank_merge_le b
    · exact merge_comm a _ ▸ rank_merge_le a
  constructor
  · rintro ⟨known, first⟩
    refine ⟨?_, fun t member => ?_⟩
    · rcases List.mem_cons.mp known with here | later
      · rcases merge_or a b with same | same <;> simp [here, same]
      · simp [later]
    · rcases List.mem_append.mp (show some t ∈ [a, b] ++ values from member) with among | later
      · obtain ⟨m, merged, le⟩ := below t among
        exact Nat.le_trans (first m (by simp [merged])) le
      · exact first t (List.mem_cons_of_mem _ later)
  · rintro ⟨known, first⟩
    have least (t : Scope) (merged : merge a b = some t) : s.rank ≤ t.rank := by
      rcases merge_or a b with same | same
      · exact first t (by simp [← merged, same])
      · exact first t (by simp [← merged, same])
    refine ⟨?_, fun t member => ?_⟩
    · rcases List.mem_append.mp (show some s ∈ [a, b] ++ values from known) with among | later
      · obtain ⟨m, merged, le⟩ := below s among
        have same : m = s := rank_injective (Nat.le_antisymm le (least m merged))
        simp [merged, same]
      · exact List.mem_cons_of_mem _ later
    · rcases List.mem_cons.mp member with here | later
      · exact least t here.symm
      · exact first t (by simp [later])

/-- Merging known scopes is choosing the highest. -/
theorem foldl_merge_eq_some_iff {values : List (Option Scope)} {current : Option Scope}
    {s : Scope} : values.foldl merge current = some s ↔ Highest (current :: values) s := by
  induction values generalizing current with
  | nil =>
    constructor
    · rintro rfl
      exact ⟨List.mem_cons_self, by simp⟩
    · rintro ⟨known, _⟩
      simpa [@eq_comm _ current] using known
  | cons v values ih => rw [List.foldl_cons, ih, highest_merge]

end Scope

namespace ComponentSet

theorem id_of_get? {s : ComponentSet} {id : String} {c : Component}
    (found : s.byId.get? id = some c) : c.id = id :=
  s.keyed _ (SortedMap.get?_eq_some_iff.mp found)

theorem containsId_iff {s : ComponentSet} {id : String} :
    s.containsId id = true ↔ ∃ c ∈ s.toList, c.id = id := by
  rw [containsId, SortedMap.contains_iff]
  constructor
  · rintro ⟨c, found⟩
    exact ⟨c, SortedMap.mem_values.mpr ⟨id, found⟩, id_of_get? found⟩
  · rintro ⟨c, member, rfl⟩
    obtain ⟨key, found⟩ := SortedMap.mem_values.mp member
    exact ⟨c, id_of_get? found ▸ found⟩

theorem get?_insertAll (s : ComponentSet) (cs : List Component) (id : String) :
    (s.insertAll cs).byId.get? id = (s.byId.get? id).or (cs.find? (·.id == id)) := by
  induction cs generalizing s with
  | nil => simp [insertAll]
  | cons c cs ih =>
    simp only [insertAll, List.foldl_cons] at ih ⊢
    rw [ih, insert, SortedMap.get?_insertNew]
    by_cases same : c.id = id
    · subst same
      cases s.byId.get? c.id <;> simp
    · simp [same]

theorem containsId_insertAll (s : ComponentSet) (cs : List Component) (id : String) :
    (s.insertAll cs).containsId id = (s.containsId id || cs.any (·.id == id)) := by
  rw [containsId, containsId, SortedMap.contains_eq_isSome, SortedMap.contains_eq_isSome,
    get?_insertAll, Option.isSome_or, List.isSome_find?]

theorem find?_toList (s : ComponentSet) (id : String) :
    s.toList.find? (·.id == id) = s.byId.get? id := by
  apply Option.ext
  intro c
  constructor
  · intro found
    obtain ⟨key, entry⟩ := SortedMap.mem_values.mp (List.mem_of_find?_eq_some found)
    have same : c.id = id := by simpa using List.find?_some found
    exact same ▸ id_of_get? entry ▸ entry
  · intro entry
    cases found : s.toList.find? (·.id == id) with
    | none =>
      have member : c ∈ s.toList := SortedMap.mem_values.mpr ⟨id, entry⟩
      exact absurd (List.find?_eq_none.mp found c member) (by simp [id_of_get? entry])
    | some d =>
      obtain ⟨key, other⟩ := SortedMap.mem_values.mp (List.mem_of_find?_eq_some found)
      have same : d.id = id := by simpa using List.find?_some found
      have here : s.byId.get? id = some d := same ▸ id_of_get? other ▸ other
      exact here ▸ entry

theorem get?_union (a b : ComponentSet) (id : String) :
    (a.union b).byId.get? id = (a.byId.get? id).or (b.byId.get? id) := by
  rw [union, get?_insertAll, find?_toList]

end ComponentSet

namespace Detected

def combine? (rule : DevelopmentRule) : List Detected → Option Detected
  | [] => none
  | d :: rest => some (rest.foldl (merge rule) d)

structure Combined (rule : DevelopmentRule) (ds : List Detected) (c : Detected) : Prop where
  component : ds.head?.map (·.component) = some c.component
  filePaths : ∀ path, c.filePaths.contains path = ds.any (·.filePaths.contains path)
  roots : ∀ id, c.roots.byId.get? id = ds.findSome? (·.roots.byId.get? id)
  development : c.development = rule.effective (ds.map (·.development))
  scope : c.scope = (ds.map (·.scope)).foldl Scope.merge none
  explicit : c.explicit = ds.any (·.explicit)
  frameworks : ∀ name, c.frameworks.contains name = ds.any (·.frameworks.contains name)
  detectorIds : ∀ id, c.detectorIds.contains id = ds.any (·.detectorIds.contains id)
  metadata : ∀ key, c.metadata.get? key = ds.findSome? (·.metadata.get? key)

theorem combined_singleton (rule : DevelopmentRule) (d : Detected) : Combined rule [d] d := by
  constructor <;> simp [DevelopmentRule.effective, List.findSome?_cons]
  all_goals intro key; split <;> simp_all

theorem Combined.merge {rule : DevelopmentRule} {ds : List Detected} {c : Detected}
    (combined : Combined rule ds c) (d : Detected) :
    Combined rule (ds ++ [d]) (c.merge rule d) where
  component := by
    cases ds with
    | nil => simpa using combined.component
    | cons first rest => exact combined.component
  filePaths path := by simp [Detected.merge, combined.filePaths]
  roots id := by
    rw [Detected.merge, ComponentSet.get?_union, combined.roots, List.findSome?_append,
      List.findSome?_singleton]
  development := by simp [Detected.merge, combined.development, DevelopmentRule.effective_append]
  scope := by simp [Detected.merge, combined.scope]
  explicit := by simp [Detected.merge, combined.explicit]
  frameworks name := by simp [Detected.merge, combined.frameworks]
  detectorIds id := by simp [Detected.merge, combined.detectorIds]
  metadata key := by
    rw [Detected.merge, SortedMap.get?_unionNew, combined.metadata, List.findSome?_append,
      List.findSome?_singleton]

theorem Combined.mergeList {rule : DevelopmentRule} {ds : List Detected} {c : Detected}
    (combined : Combined rule ds c) (rest : List Detected) :
    Combined rule (ds ++ rest) (rest.foldl (Detected.merge rule) c) := by
  induction rest generalizing ds c with
  | nil => simpa using combined
  | cons d rest ih => simpa using ih (combined.merge d)

theorem combined_of_combine? {rule : DevelopmentRule} {ds : List Detected} {c : Detected}
    (h : combine? rule ds = some c) : Combined rule ds c := by
  cases ds with
  | nil => simp [combine?] at h
  | cons d rest =>
    obtain rfl : rest.foldl (Detected.merge rule) d = c := by simpa [combine?] using h
    simpa using (combined_singleton rule d).mergeList rest

theorem Combined.id {rule : DevelopmentRule} {ds : List Detected} {c : Detected} {id : String}
    (combined : Combined rule ds c) (all : ∀ d ∈ ds, d.id = id) : c.id = id := by
  cases ds with
  | nil => exact absurd combined.component (by simp)
  | cons d rest =>
    have same : d.component = c.component := by simpa using combined.component
    exact (congrArg Component.id same).symm.trans (all d List.mem_cons_self)

/-- What holds of a merged component held of one of its observations. -/
def Inherited (φ : Detected → Prop) : Prop :=
  ∀ rule ds c, Combined rule ds c → φ c → ∃ d ∈ ds, φ d

/-- What holds of an observation holds of the component that it is merged into. -/
def Lasting (φ : Detected → Prop) : Prop :=
  ∀ rule ds c, Combined rule ds c → ∀ d ∈ ds, φ d → φ c

theorem inherited_explicit : Inherited (·.explicit = true) := by
  intro rule ds c combined holds
  exact List.any_eq_true.mp (combined.explicit ▸ holds)

theorem lasting_explicit : Lasting (·.explicit = true) := by
  intro rule ds c combined d member holds
  exact combined.explicit.trans (List.any_eq_true.mpr ⟨d, member, holds⟩)

theorem lasting_filePath (path : String) : Lasting (·.filePaths.contains path = true) := by
  intro rule ds c combined d member holds
  exact (combined.filePaths path).trans (List.any_eq_true.mpr ⟨d, member, holds⟩)

theorem inherited_component (k : Component) : Inherited (·.component = k) := by
  rintro rule ds c combined rfl
  cases ds with
  | nil => exact absurd combined.component (by simp)
  | cons d ds => exact ⟨d, List.mem_cons_self, by simpa using combined.component⟩

theorem inherited_rootAt (id : String) (root : Component) :
    Inherited (·.roots.byId.get? id = some root) := by
  intro rule ds c combined holds
  rw [combined.roots] at holds
  exact List.exists_of_findSome?_eq_some holds

theorem inherited_root (id : String) : Inherited (·.roots.containsId id = true) := by
  intro rule ds c combined holds
  obtain ⟨root, found⟩ := SortedMap.contains_iff.mp holds
  obtain ⟨d, member, found⟩ := inherited_rootAt id root rule ds c combined found
  exact ⟨d, member, SortedMap.contains_iff.mpr ⟨root, found⟩⟩

theorem inherited_metadata (key value : String) :
    Inherited (·.metadata.get? key = some value) := by
  intro rule ds c combined holds
  rw [combined.metadata] at holds
  exact List.exists_of_findSome?_eq_some holds

theorem lasting_root (id : String) : Lasting (·.roots.containsId id = true) := by
  intro rule ds c combined d member holds
  rw [ComponentSet.containsId, SortedMap.contains_eq_isSome] at holds ⊢
  rw [combined.roots, List.findSome?_isSome_iff]
  exact ⟨d, member, holds⟩

theorem inherited_development (value : Bool) : Inherited (·.development = some value) := by
  intro rule ds c combined holds
  obtain ⟨d, member, same⟩ :=
    List.mem_map.mp (rule.mem_of_effective (combined.development ▸ holds))
  exact ⟨d, member, same⟩

/-- Under an id stands what the observations of this id come to. -/
theorem get?_file (rule : DevelopmentRule) (ds : List Detected) (id : String) :
    (ds.foldl (file rule) .empty).get? id = combine? rule (ds.filter (·.id == id)) := by
  refine (SortedMap.get?_foldl_upsert Detected.id _ ds .empty id).trans ?_
  cases ds.filter (·.id == id) with
  | nil => rfl
  | cons d rest =>
    show List.foldl _ (some d) rest = some (rest.foldl (merge rule) d)
    induction rest generalizing d with
    | nil => rfl
    | cons x rest ih => exact ih (d.merge rule x)

theorem id_of_get?_file {rule : DevelopmentRule} {ds : List Detected} {id : String} {c : Detected}
    (found : (ds.foldl (file rule) .empty).get? id = some c) : c.id = id := by
  rw [get?_file] at found
  exact (combined_of_combine? found).id fun d member => by simpa using (List.mem_filter.mp member).2

theorem mem_mergeAll {rule : DevelopmentRule} {ds : List Detected} {c : Detected} :
    c ∈ mergeAll rule ds ↔ combine? rule (ds.filter (·.id == c.id)) = some c := by
  rw [mergeAll, SortedMap.mem_values]
  constructor
  · rintro ⟨key, found⟩
    have same := id_of_get?_file found
    rw [get?_file] at found
    exact same ▸ found
  · exact fun combined => ⟨c.id, (get?_file ..).trans combined⟩

theorem combined_of_mem_mergeAll {rule : DevelopmentRule} {ds : List Detected} {c : Detected}
    (member : c ∈ mergeAll rule ds) : Combined rule (ds.filter (·.id == c.id)) c :=
  combined_of_combine? (mem_mergeAll.mp member)

/-- A component has inherited what it has from an observation of its id. -/
theorem Inherited.mergeAll {φ : Detected → Prop} (inherited : Inherited φ) {rule : DevelopmentRule}
    {ds : List Detected} {c : Detected} (member : c ∈ mergeAll rule ds) (holds : φ c) :
    ∃ d ∈ ds, d.id = c.id ∧ φ d := by
  obtain ⟨d, among, holds⟩ := inherited rule _ c (combined_of_mem_mergeAll member) holds
  obtain ⟨observed, same⟩ := List.mem_filter.mp among
  exact ⟨d, observed, by simpa using same, holds⟩

theorem Lasting.mergeAll {φ : Detected → Prop} (lasting : Lasting φ) {rule : DevelopmentRule}
    {ds : List Detected} {c d : Detected} (member : c ∈ mergeAll rule ds) (observed : d ∈ ds)
    (same : d.id = c.id) (holds : φ d) : φ c := by
  have among : d ∈ ds.filter (·.id == c.id) := List.mem_filter.mpr ⟨observed, by simpa using same⟩
  exact lasting rule _ c (combined_of_mem_mergeAll member) d among holds

/-- Every id that was observed has a component, and no other. -/
theorem exists_mem_mergeAll {rule : DevelopmentRule} {ds : List Detected} {id : String} :
    (∃ c ∈ mergeAll rule ds, c.id = id) ↔ ∃ d ∈ ds, d.id = id := by
  constructor
  · rintro ⟨c, member, rfl⟩
    have merged := mem_mergeAll.mp member
    cases observed : ds.filter (·.id == c.id) with
    | nil => simp [observed, combine?] at merged
    | cons d rest =>
      have here : d ∈ ds.filter (·.id == c.id) := observed ▸ List.mem_cons_self
      exact ⟨d, (List.mem_filter.mp here).1, by simpa using (List.mem_filter.mp here).2⟩
  · rintro ⟨d, member, rfl⟩
    have here : d ∈ ds.filter (·.id == d.id) := List.mem_filter.mpr ⟨member, by simp⟩
    cases observed : ds.filter (·.id == d.id) with
    | nil => simp [observed] at here
    | cons first rest =>
      have combined : combine? rule (ds.filter (·.id == d.id)) =
          some (rest.foldl (merge rule) first) := by rw [observed, combine?]
      have same := (combined_of_combine? combined).id fun x member => by
        simpa using (List.mem_filter.mp member).2
      exact ⟨_, mem_mergeAll.mpr (same ▸ combined), same⟩

/-- The components of a result stand in the strict order of their ids. -/
theorem pairwise_mergeAll (rule : DevelopmentRule) (ds : List Detected) :
    (mergeAll rule ds).Pairwise fun a b => a.id < b.id :=
  SortedMap.pairwise_values fun _ _ => id_of_get?_file

end Detected

end Inventory
