import Inventory.Proofs.Component.Order

/-! Merging in batches. Observations form a semigroup in which everything is idempotent, although
it is not commutative: of several payloads the first is kept. So what a list of observations comes
to may be computed batch by batch, and a repeated list says nothing new. -/
namespace Inventory

/-- Of a list in strict order by a key, one member is all that has its key. -/
theorem filter_eq_singleton_of_sorted {α : Type u} {f : α → String} {l : List α} {a : α}
    (sorted : l.Pairwise (f · < f ·)) (member : a ∈ l) : l.filter (f · == f a) = [a] := by
  obtain ⟨before, after, rfl⟩ := List.append_of_mem member
  obtain ⟨_, above, across⟩ := List.pairwise_append.mp sorted
  have below : before.filter (f · == f a) = [] := List.filter_eq_nil_iff.mpr fun x early same =>
    String.ne_of_lt (across x early a List.mem_cons_self) (beq_iff_eq.mp same)
  have beyond : after.filter (f · == f a) = [] := List.filter_eq_nil_iff.mpr fun x late same =>
    String.ne_of_lt (List.rel_of_pairwise_cons above late) (beq_iff_eq.mp same).symm
  simp [below, beyond]

namespace SortedMap

variable {α : Type u}

theorem unionNew_assoc (a b c : SortedMap α) :
    (a.unionNew b).unionNew c = a.unionNew (b.unionNew c) :=
  ext_get? fun key => by simp only [get?_unionNew, Option.or_assoc]

theorem unionNew_self (a : SortedMap α) : a.unionNew a = a :=
  ext_get? fun key => by rw [get?_unionNew, Option.or_self]

end SortedMap

namespace StringSet

theorem union_assoc (a b c : StringSet) :
    StringSet.union (StringSet.union a b) c = StringSet.union a (StringSet.union b c) :=
  ext fun x => by simp only [contains_union, Bool.or_assoc]

theorem union_self (a : StringSet) : StringSet.union a a = a :=
  ext fun x => by rw [contains_union, Bool.or_self]

end StringSet

namespace ComponentSet

theorem ext_get? {a b : ComponentSet} (same : ∀ id, a.byId.get? id = b.byId.get? id) : a = b := by
  have maps := SortedMap.ext_get? same
  cases a
  cases b
  simpa using maps

theorem union_assoc (a b c : ComponentSet) : (a.union b).union c = a.union (b.union c) :=
  ext_get? fun id => by simp only [get?_union, Option.or_assoc]

theorem union_self (a : ComponentSet) : a.union a = a :=
  ext_get? fun id => by rw [get?_union, Option.or_self]

end ComponentSet

theorem DevelopmentRule.merge_self (rule : DevelopmentRule) (value : Option Bool) :
    rule.merge value value = value := by
  rcases value with _ | _ | _ <;> cases rule <;> rfl

theorem Scope.merge_self (value : Option Scope) : Scope.merge value value = value := by
  cases value with
  | none => rfl
  | some s => simp [Scope.merge]

namespace Detected

variable {rule : DevelopmentRule} {ds ds' : List Detected} {c d : Detected}

theorem merge_assoc (a b c : Detected) :
    (a.merge rule b).merge rule c = a.merge rule (b.merge rule c) := by
  simp only [merge, Detected.mk.injEq]
  exact ⟨trivial, StringSet.union_assoc .., ComponentSet.union_assoc .., rule.merge_assoc ..,
    Scope.merge_assoc .., Bool.or_assoc .., StringSet.union_assoc .., StringSet.union_assoc ..,
    SortedMap.unionNew_assoc ..⟩

theorem merge_self (d : Detected) : d.merge rule d = d := by
  cases d
  simp only [merge, Detected.mk.injEq]
  exact ⟨trivial, StringSet.union_self _, ComponentSet.union_self _, rule.merge_self _,
    Scope.merge_self _, Bool.or_self _, StringSet.union_self _, StringSet.union_self _,
    SortedMap.unionNew_self _⟩

instance (rule : DevelopmentRule) : Std.Associative (merge rule) := ⟨merge_assoc⟩

theorem combine?_append (rule : DevelopmentRule) (ds ds' : List Detected) :
    combine? rule (ds ++ ds') = Option.merge (merge rule) (combine? rule ds) (combine? rule ds') := by
  cases ds with
  | nil => cases ds' <;> rfl
  | cons d rest =>
    cases ds' with
    | nil => simp [combine?, Option.merge]
    | cons d' rest' =>
      simp only [List.cons_append, combine?, List.foldl_append, List.foldl_cons,
        Option.merge_some_some, Option.some.injEq]
      exact List.foldl_assoc

theorem combine?_toList (rule : DevelopmentRule) (merged : Option Detected) :
    combine? rule merged.toList = merged := by
  cases merged <;> rfl

/-- A list that is said twice says no more than once. -/
theorem combine?_twice (rule : DevelopmentRule) (ds : List Detected) :
    combine? rule (ds ++ ds) = combine? rule ds := by
  rw [combine?_append]
  cases combine? rule ds with
  | none => rfl
  | some d => exact congrArg some (merge_self d)

/-- Each batch may be replaced by what it comes to. -/
theorem combine?_flatMap {α : Type u} (rule : DevelopmentRule) (f : α → List Detected)
    (batches : List α) :
    combine? rule (batches.flatMap fun x => (combine? rule (f x)).toList) =
      combine? rule (batches.flatMap f) := by
  induction batches with
  | nil => rfl
  | cons x batches ih =>
    rw [List.flatMap_cons, combine?_append, combine?_toList, ih, List.flatMap_cons, combine?_append]

/-- Of a result, the part with one id is what the observations of this id come to. -/
theorem filter_mergeAll (rule : DevelopmentRule) (ds : List Detected) (id : String) :
    (mergeAll rule ds).filter (·.id == id) = (combine? rule (ds.filter (·.id == id))).toList := by
  cases merged : combine? rule (ds.filter (·.id == id)) with
  | none =>
    refine List.filter_eq_nil_iff.mpr fun c member same => ?_
    obtain rfl : c.id = id := by simpa using same
    exact absurd (merged.symm.trans (mem_mergeAll.mp member)) (by simp)
  | some c =>
    obtain rfl : c.id = id := (combined_of_combine? merged).id fun d among => by
      simpa using (List.mem_filter.mp among).2
    exact filter_eq_singleton_of_sorted (pairwise_mergeAll rule ds) (mem_mergeAll.mpr merged)

/-- A result is settled by what the observations of each id come to. -/
theorem mergeAll_congr (same : ∀ id, combine? rule (ds.filter (·.id == id)) =
    combine? rule (ds'.filter (·.id == id))) : mergeAll rule ds = mergeAll rule ds' := by
  have filed : ds.foldl (file rule) .empty = ds'.foldl (file rule) .empty :=
    SortedMap.ext_get? fun id => by rw [get?_file, get?_file, same]
  rw [mergeAll, filed, mergeAll]

/-- Results of batches merge into the result of all their observations. -/
theorem mergeAll_flatMap_mergeAll (rule : DevelopmentRule) (batches : List (List Detected)) :
    mergeAll rule (batches.flatMap (mergeAll rule)) = mergeAll rule batches.flatten := by
  refine mergeAll_congr fun id => ?_
  calc combine? rule ((batches.flatMap (mergeAll rule)).filter (·.id == id))
      = combine? rule (batches.flatMap fun ds =>
          (combine? rule (ds.filter (·.id == id))).toList) := by
        simp only [List.filter_flatMap, filter_mergeAll]
    _ = combine? rule (batches.flatMap fun ds => ds.filter (·.id == id)) := combine?_flatMap ..
    _ = combine? rule (batches.flatten.filter (·.id == id)) := by
        rw [List.filter_flatten, List.flatMap_def]

structure Chosen (ds : List Detected) (c : Detected) : Prop where
  component : ∃ d ∈ ds, d.id = c.id ∧ d.component = c.component
  roots : ∀ id root, c.roots.byId.get? id = some root →
    ∃ d ∈ ds, d.id = c.id ∧ d.roots.byId.get? id = some root
  metadata : ∀ key value, c.metadata.get? key = some value →
    ∃ d ∈ ds, d.id = c.id ∧ d.metadata.get? key = some value

theorem chosen_of_mem (member : c ∈ mergeAll rule ds) : Chosen ds c where
  component := (inherited_component c.component).mergeAll member rfl
  roots id root found := (inherited_rootAt id root).mergeAll member found
  metadata key value found := (inherited_metadata key value).mergeAll member found

theorem Chosen.mono (chosen : Chosen ds c) (among : ∀ d ∈ ds, d ∈ ds') : Chosen ds' c where
  component := chosen.component.imp fun d said => ⟨among d said.1, said.2⟩
  roots id root found := (chosen.roots id root found).imp fun d said => ⟨among d said.1, said.2⟩
  metadata key value found :=
    (chosen.metadata key value found).imp fun d said => ⟨among d said.1, said.2⟩

/-- Merging in batches is merging at once, in all fields. A result has one component for each id
that was observed, in the strict order of ids. The order of the observations settles nothing but
which of them stands for a component, for one of its roots or for a key of its metadata, and
observations that are repeated change nothing. -/
theorem mergeAll_in_batches (rule : DevelopmentRule) (batches : List (List Detected)) :
    let ds := batches.flatten
    mergeAll rule ds = mergeAll rule (batches.map (mergeAll rule)).flatten ∧
      (mergeAll rule ds).Pairwise (fun a b => a.id < b.id) ∧
      (∀ id, (∃ c ∈ mergeAll rule ds, c.id = id) ↔ ∃ d ∈ ds, d.id = id) ∧
      (∀ ds', ds.Perm ds' → List.Forall₂ (fun c c' => Alike c c' ∧ Chosen ds c ∧ Chosen ds c')
        (mergeAll rule ds) (mergeAll rule ds')) ∧
      mergeAll rule (ds ++ ds) = mergeAll rule ds := by
  intro ds
  have batched : mergeAll rule ds = mergeAll rule (batches.map (mergeAll rule)).flatten := by
    rw [← List.flatMap_def, mergeAll_flatMap_mergeAll]
  refine ⟨batched, pairwise_mergeAll rule ds, fun _ => exists_mem_mergeAll, fun ds' perm => ?_, ?_⟩
  · have alike := mergeAll_alike rule fun o => perm.mem_iff (a := o)
    refine List.forall₂_iff_zip.mpr ⟨alike.length_eq, fun {c c'} paired => ?_⟩
    obtain ⟨member, member'⟩ := List.of_mem_zip paired
    exact ⟨(List.forall₂_iff_zip.mp alike).2 paired, chosen_of_mem member,
      (chosen_of_mem member').mono fun o => perm.mem_iff.mpr⟩
  · refine mergeAll_congr fun id => ?_
    rw [List.filter_append, combine?_twice]

end Detected

end Inventory
