import Inventory.SortedMap
import Mathlib.Data.List.Forall2
import Mathlib.Data.List.Nodup

/-! What a map answers to each key after it was written to. Maps that answer alike are equal, so
equality of two states is settled one lookup at a time. -/
namespace Inventory

/-- Sorted lists are equal when they have the same members. -/
theorem eq_of_sorted {l m : List String} (hl : l.Pairwise (· < ·)) (hm : m.Pairwise (· < ·))
    (same : ∀ x, x ∈ l ↔ x ∈ m) : l = m := by
  have perm : l.Perm m :=
    (List.perm_ext_iff_of_nodup (hl.imp String.ne_of_lt) (hm.imp String.ne_of_lt)).mpr same
  exact perm.eq_of_pairwise
    (fun _ _ _ _ ab ba => absurd (String.lt_trans ab ba) (String.lt_irrefl _)) hl hm

/-- Lists that are sorted by a key match one to one when they have the same keys. -/
theorem forall₂_of_sorted {α : Type u} {β : Type v} {R : α → β → Prop} {f : α → String}
    {g : β → String} {l : List α} {m : List β} (hl : l.Pairwise (f · < f ·))
    (hm : m.Pairwise (g · < g ·)) (keys : ∀ x, (∃ a ∈ l, f a = x) ↔ ∃ b ∈ m, g b = x)
    (related : ∀ a ∈ l, ∀ b ∈ m, f a = g b → R a b) : List.Forall₂ R l m := by
  have same : l.map f = m.map g :=
    eq_of_sorted (List.pairwise_map.mpr hl) (List.pairwise_map.mpr hm)
      fun x => by simpa only [List.mem_map] using keys x
  have pairs : List.Forall₂ (fun a b => f a = g b) l m :=
    List.forall₂_map_left_iff.mp (List.forall₂_map_right_iff.mp (same ▸ List.forall₂_refl _))
  refine List.forall₂_iff_zip.mpr ⟨pairs.length_eq, fun {a b} member => ?_⟩
  obtain ⟨ha, hb⟩ := List.of_mem_zip member
  exact related a ha b hb ((List.forall₂_iff_zip.mp pairs).2 member)

namespace SortedMap

variable {α : Type u} {β : Type v}

theorem entry_unique {m : SortedMap α} {key : String} {a b : α} (ha : (key, a) ∈ m.entries)
    (hb : (key, b) ∈ m.entries) : a = b := by
  have nodup : (m.entries.map (·.1)).Nodup :=
    List.pairwise_map.mpr (m.sorted.imp String.ne_of_lt)
  exact congrArg Prod.snd (List.inj_on_of_nodup_map nodup ha hb rfl)

theorem get?_eq_some_iff {m : SortedMap α} {key : String} {value : α} :
    m.get? key = some value ↔ (key, value) ∈ m.entries := by
  simp only [get?, Option.map_eq_some_iff]
  constructor
  · rintro ⟨⟨k, v⟩, found, rfl⟩
    have same : k = key := by simpa using List.find?_some found
    exact same ▸ List.mem_of_find?_eq_some found
  · intro member
    cases found : m.entries.find? (·.1 == key) with
    | none => exact absurd (List.find?_eq_none.mp found _ member) (by simp)
    | some e =>
      obtain ⟨k, v⟩ := e
      have same : k = key := by simpa using List.find?_some found
      subst same
      exact ⟨_, rfl, entry_unique (List.mem_of_find?_eq_some found) member⟩

theorem contains_eq_isSome (m : SortedMap α) (key : String) :
    m.contains key = (m.get? key).isSome := by
  simp [contains, get?, List.isSome_find?]

theorem contains_iff {m : SortedMap α} {key : String} :
    m.contains key = true ↔ ∃ value, m.get? key = some value := by
  rw [contains_eq_isSome, Option.isSome_iff_exists]

theorem ext_get? {a b : SortedMap α} (same : ∀ key, a.get? key = b.get? key) : a = b := by
  have members : ∀ e, e ∈ a.entries ↔ e ∈ b.entries := by
    rintro ⟨key, value⟩
    rw [← get?_eq_some_iff, ← get?_eq_some_iff, same]
  have nodup (m : SortedMap α) : m.entries.Nodup :=
    m.sorted.imp fun lt same => String.ne_of_lt lt (congrArg Prod.fst same)
  have perm : a.entries.Perm b.entries :=
    (List.perm_ext_iff_of_nodup (nodup a) (nodup b)).mpr members
  have entries : a.entries = b.entries :=
    perm.eq_of_pairwise (fun _ _ _ _ ab ba => absurd (String.lt_trans ab ba) (String.lt_irrefl _))
      a.sorted b.sorted
  cases a
  cases b
  simpa using entries

@[simp] theorem get?_empty (key : String) : (empty : SortedMap α).get? key = none := rfl

@[simp] theorem contains_empty (key : String) : (empty : SortedMap α).contains key = false := rfl

theorem find?_upsertEntry (key : String) (f : Option α → α) (k : String)
    {l : List (String × α)} (sorted : l.Pairwise fun a b => a.1 < b.1) :
    ((upsertEntry key f l).find? (·.1 == k)).map (·.2) =
      if key = k then some (f ((l.find? (·.1 == key)).map (·.2)))
      else (l.find? (·.1 == k)).map (·.2) := by
  induction l with
  | nil => by_cases same : key = k <;> simp [upsertEntry, same]
  | cons head rest ih =>
    obtain ⟨k', v⟩ := head
    simp only [upsertEntry]
    split
    next lt =>
      -- A key below the first one is nowhere in the list.
      have absent : rest.find? (·.1 == key) = none := by
        refine List.find?_eq_none.mpr fun e he same => ?_
        have above := String.lt_trans lt (List.rel_of_pairwise_cons sorted he)
        simp only [beq_iff_eq] at same
        exact String.lt_irrefl _ (same ▸ above)
      have ne : ¬ k' = key := fun same => String.lt_irrefl _ (same ▸ lt)
      by_cases same : key = k
      · subst same
        simp [ne, absent]
      · simp [same]
    next =>
      split
      next eq =>
        subst eq
        by_cases same : key = k <;> simp [same]
      next ne =>
        by_cases here : k' = k
        · subst here
          simp [ne]
        · simp only [List.find?_cons, beq_eq_false_iff_ne.mpr here,
            beq_eq_false_iff_ne.mpr (Ne.symm ne), ih sorted.of_cons]

theorem get?_upsert (m : SortedMap α) (key : String) (f : Option α → α) (k : String) :
    (m.upsert key f).get? k = if key = k then some (f (m.get? key)) else m.get? k :=
  find?_upsertEntry key f k m.sorted

theorem get?_insert (m : SortedMap α) (key : String) (value : α) (k : String) :
    (m.insert key value).get? k = if key = k then some value else m.get? k :=
  get?_upsert ..

theorem get?_insertNew (m : SortedMap α) (key : String) (value : α) (k : String) :
    (m.insertNew key value).get? k =
      if key = k then some ((m.get? key).getD value) else m.get? k :=
  get?_upsert ..

theorem get?_map (f : α → β) (m : SortedMap α) (key : String) :
    (m.map f).get? key = (m.get? key).map f := by
  simp [get?, map, List.find?_map, Function.comp_def]

theorem get?_modify (m : SortedMap α) (key : String) (f : α → α) (k : String) :
    (m.modify key f).get? k = if key = k then (m.get? k).map f else m.get? k := by
  have keys (e : String × α) : ((if e.1 = key then (e.1, f e.2) else e).1 == k) = (e.1 == k) := by
    split <;> rfl
  simp only [get?, modify, List.find?_map, Function.comp_def, keys]
  cases found : m.entries.find? (·.1 == k) with
  | none => simp
  | some e =>
    have same : e.1 = k := by simpa using List.find?_some found
    by_cases eq : key = k
    · simp [same, eq]
    · simp [same, eq, Ne.symm eq]

@[simp] theorem contains_modify (m : SortedMap α) (key : String) (f : α → α) (k : String) :
    (m.modify key f).contains k = m.contains k := by
  rw [contains_eq_isSome, contains_eq_isSome, get?_modify]
  split <;> simp

theorem get?_filterKeys (p : String → Bool) (m : SortedMap α) (key : String) :
    (m.filterKeys p).get? key = if p key then m.get? key else none := by
  apply Option.ext
  intro value
  by_cases keep : p key <;> simp [get?_eq_some_iff, filterKeys, keep]

@[simp] theorem contains_filterKeys (p : String → Bool) (m : SortedMap α) (key : String) :
    (m.filterKeys p).contains key = (p key && m.contains key) := by
  rw [contains_eq_isSome, contains_eq_isSome, get?_filterKeys]
  cases p key <;> simp

/-- After a list of writes, a key holds what the writes to this key have made of its entry. -/
theorem get?_foldl_upsert (key : β → String) (f : β → Option α → α) (l : List β)
    (m : SortedMap α) (k : String) :
    (l.foldl (fun m x => m.upsert (key x) (f x)) m).get? k =
      (l.filter (key · == k)).foldl (fun old x => some (f x old)) (m.get? k) := by
  induction l generalizing m with
  | nil => rfl
  | cons x l ih =>
    rw [List.foldl_cons, ih, get?_upsert]
    by_cases same : key x = k
    · subst same
      simp
    · simp [same]

/-- Of a list in which no key is given twice. -/
theorem get?_ofList {l : List (String × α)} (distinct : (l.map (·.1)).Nodup) {key : String}
    {value : α} : (ofList l).get? key = some value ↔ (key, value) ∈ l := by
  have start : ∀ (l : List (String × α)) (m : SortedMap α), (l.map (·.1)).Nodup →
      ((l.foldl (fun m e => m.insert e.1 e.2) m).get? key = some value ↔
        (key, value) ∈ l ∨ (key ∉ l.map (·.1) ∧ m.get? key = some value)) := by
    intro l
    induction l with
    | nil => simp
    | cons e l ih =>
      intro m distinct
      obtain ⟨fresh, distinct⟩ := List.nodup_cons.mp distinct
      rw [List.foldl_cons, ih _ distinct, get?_insert]
      obtain ⟨k, v⟩ := e
      by_cases same : k = key
      · subst same
        have absent : (k, value) ∉ l := fun member =>
          fresh (List.mem_map.mpr ⟨_, member, rfl⟩)
        simp [absent, fresh, @eq_comm _ v]
      · simp [same, Ne.symm same]
  rw [ofList, start l empty distinct, get?_empty]
  simp

theorem get?_unionNew (a b : SortedMap α) (key : String) :
    (a.unionNew b).get? key = (a.get? key).or (b.get? key) := by
  have entries : ∀ (l : List (String × α)) (a : SortedMap α),
      (l.foldl (fun m e => m.insertNew e.1 e.2) a).get? key =
        (a.get? key).or ((l.find? (·.1 == key)).map (·.2)) := by
    intro l
    induction l with
    | nil => simp
    | cons e l ih =>
      intro a
      rw [List.foldl_cons, ih, get?_insertNew]
      by_cases same : e.1 = key
      · subst same
        cases a.get? e.1 <;> simp
      · simp [same]
  exact entries b.entries a

/-- The last value that is written under a key stays. -/
theorem get?_foldl_insert (l : List (String × α)) (m : SortedMap α) (key : String) :
    (l.foldl (fun m e => m.insert e.1 e.2) m).get? key =
      ((l.reverse.find? (·.1 == key)).map (·.2)).or (m.get? key) := by
  induction l generalizing m with
  | nil => rfl
  | cons e l ih =>
    rw [List.foldl_cons, ih, get?_insert, List.reverse_cons, List.find?_append]
    by_cases same : e.1 = key
    · cases l.reverse.find? (·.1 == key) <;> simp [same]
    · simp [same]

/-- Of a list in which keys may be given more than once. -/
theorem get?_ofList_eq (l : List (String × α)) (key : String) :
    (ofList l).get? key = (l.reverse.find? (·.1 == key)).map (·.2) := by
  rw [ofList, get?_foldl_insert, get?_empty, Option.or_none]

theorem ofList_entries (m : SortedMap α) : ofList m.entries = m := by
  have distinct : (m.entries.map (·.1)).Nodup :=
    List.pairwise_map.mpr (m.sorted.imp String.ne_of_lt)
  refine ext_get? fun key => Option.ext fun value => ?_
  rw [get?_ofList distinct, get?_eq_some_iff]

/-- Entries that are added to a map are written after those that it has. -/
theorem union_ofList (m : SortedMap α) (l : List (String × α)) :
    m.union (ofList l) = ofList (m.entries ++ l) := by
  have appended : ofList (m.entries ++ l) = l.foldl (fun m e => m.insert e.1 e.2) m := by
    rw [ofList, List.foldl_append]
    exact congrArg (l.foldl _) m.ofList_entries
  refine ext_get? fun key => ?_
  have last := congrArg (get? · key) (ofList l).ofList_entries
  simp only [get?_ofList_eq] at last
  rw [appended, union, get?_foldl_insert, get?_foldl_insert]
  exact congrArg (Option.or · (m.get? key)) last

theorem mem_values {m : SortedMap α} {value : α} :
    value ∈ m.values ↔ ∃ key, m.get? key = some value := by
  simp [values, get?_eq_some_iff]

theorem mem_keys {m : SortedMap α} {key : String} : key ∈ m.keys ↔ m.contains key = true :=
  contains_eq_true.symm

theorem sorted_keys (m : SortedMap α) : m.keys.Pairwise (· < ·) :=
  List.pairwise_map.mpr m.sorted

/-- Values that know their keys stand in the order of these. -/
theorem pairwise_values {m : SortedMap α} {f : α → String}
    (keyed : ∀ key value, m.get? key = some value → f value = key) :
    m.values.Pairwise (f · < f ·) := by
  refine List.pairwise_map.mpr (m.sorted.imp_of_mem fun {a b} ha hb lt => ?_)
  rw [keyed a.1 a.2 (get?_eq_some_iff.mpr ha), keyed b.1 b.2 (get?_eq_some_iff.mpr hb)]
  exact lt

/-- Maps with the same keys list them alike. -/
theorem keys_eq {a : SortedMap α} {b : SortedMap β}
    (same : ∀ key, a.contains key = b.contains key) : a.keys = b.keys :=
  eq_of_sorted a.sorted_keys b.sorted_keys fun key => by rw [mem_keys, mem_keys, same]

theorem isEmpty_eq_false_iff {m : SortedMap α} :
    m.isEmpty = false ↔ ∃ key, m.contains key = true := by
  simp only [isEmpty, List.isEmpty_eq_false_iff_exists_mem, contains_iff, get?_eq_some_iff]
  exact Prod.exists

end SortedMap

namespace StringSet

theorem ext {a b : StringSet} (same : ∀ x, a.contains x = b.contains x) : a = b := by
  refine SortedMap.ext_get? fun key => ?_
  have here := same key
  rw [SortedMap.contains_eq_isSome, SortedMap.contains_eq_isSome] at here
  cases ha : a.get? key <;> cases hb : b.get? key <;> simp_all

@[simp] theorem contains_union (a b : StringSet) (x : String) :
    (StringSet.union a b).contains x = (a.contains x || b.contains x) := by
  have listed : b.toList.contains x = b.contains x := by
    rw [Bool.eq_iff_iff, List.contains_iff_mem]
    exact SortedMap.mem_keys
  rw [StringSet.union, contains_addAll, listed, Bool.or_comm]

theorem contains_add_if {p : Prop} [Decidable p] {s : StringSet} {x y : String} :
    (if p then s.add x else s).contains y = true ↔ s.contains y = true ∨ (p ∧ x = y) := by
  split <;> simp [*, or_comm]

theorem contains_foldl_add_if {p : String → Prop} [DecidablePred p] (xs : List String)
    (s : StringSet) (y : String) :
    (xs.foldl (fun s x => if p x then s.add x else s) s).contains y = true ↔
      s.contains y = true ∨ (y ∈ xs ∧ p y) := by
  induction xs generalizing s with
  | nil => simp
  | cons x xs ih =>
    rw [List.foldl_cons, ih, contains_add_if, List.mem_cons]
    by_cases same : x = y
    · subst same
      by_cases holds : p x <;> simp [holds]
    · simp [same, Ne.symm same]

@[simp] theorem contains_ofList (xs : List String) (x : String) :
    (ofList xs).contains x = xs.contains x := by
  simp [ofList, contains_addAll]

theorem mem_toList {s : StringSet} {x : String} : x ∈ s.toList ↔ s.contains x = true :=
  SortedMap.mem_keys

/-- Maps to sets are equal when their keys are and each set has the same members. -/
theorem ext_sets {a b : SortedMap StringSet} (keys : ∀ key, a.contains key = b.contains key)
    (members : ∀ key x, (a.get? key).any (·.contains x) = (b.get? key).any (·.contains x)) :
    a = b := by
  refine SortedMap.ext_get? fun key => ?_
  have known := keys key
  have same := members key
  rw [SortedMap.contains_eq_isSome, SortedMap.contains_eq_isSome] at known
  cases here : a.get? key with
  | none => cases there : b.get? key <;> simp_all
  | some s => cases there : b.get? key with
    | none => simp_all
    | some t => exact congrArg some (ext (by simpa [here, there] using same))

end StringSet

end Inventory
