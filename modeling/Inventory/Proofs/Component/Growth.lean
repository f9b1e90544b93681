import Inventory.Proofs.Component.Batches

/-! Observations that come to more and more. Merging flags, or scopes, is the join of a semilattice,
so what a list of them comes to rises with each of them and with their number. A flag that rises
stays known and keeps to the value that its rule prefers; a scope that rises stays known and never
drops in priority. -/
namespace Inventory

section Rising

variable {α : Type u} {op : α → α → α} {a b c e e' x : α} {l m : List α}

/-- Joined to `b`, `a` adds nothing. -/
def Rises (op : α → α → α) (a b : α) : Prop := op a b = b

theorem Rises.refl [Std.IdempotentOp op] (a : α) : Rises op a a := Std.IdempotentOp.idempotent a

variable [assoc : Std.Associative op]

theorem Rises.trans (first : Rises op a b) (second : Rises op b c) : Rises op a c := by
  have upper : op b c = c := second
  calc op a c = op (op a b) c := by rw [assoc.assoc, upper]
    _ = c := by rw [show op a b = b from first, upper]

theorem Rises.join (left : Rises op a c) (right : Rises op b c) : Rises op (op a b) c := by
  rw [Rises, assoc.assoc, show op b c = c from right]
  exact left

theorem Rises.foldl (start : Rises op e c) (each : ∀ x ∈ l, Rises op x c) :
    Rises op (l.foldl op e) c := by
  induction l generalizing e with
  | nil => exact start
  | cons x l ih =>
    exact ih (start.join (each x List.mem_cons_self)) fun y member =>
      each y (List.mem_cons_of_mem x member)

variable [Std.IdempotentOp op]

theorem rises_left (a b : α) : Rises op a (op a b) := by
  rw [Rises, ← assoc.assoc, show op a a = a from Std.IdempotentOp.idempotent a]

theorem rises_foldl (e : α) (l : List α) : Rises op e (l.foldl op e) := by
  induction l generalizing e with
  | nil => exact .refl e
  | cons x l ih => exact (rises_left e x).trans (ih (op e x))

variable [comm : Std.Commutative op]

theorem rises_right (a b : α) : Rises op b (op a b) := comm.comm b a ▸ rises_left b a

theorem rises_foldl_of_mem (member : x ∈ l) : Rises op x (l.foldl op e) := by
  induction l generalizing e with
  | nil => cases member
  | cons y l ih =>
    rcases List.mem_cons.mp member with rfl | later
    · exact (rises_right e x).trans (rises_foldl (op e x) l)
    · exact ih later

/-- A list comes to more if each of its members rises to one of the other. -/
theorem Rises.foldl_of_each (start : Rises op e e')
    (each : ∀ x ∈ l, ∃ y ∈ m, Rises op x y) : Rises op (l.foldl op e) (m.foldl op e') := by
  refine .foldl (start.trans (rises_foldl e' m)) fun x member => ?_
  obtain ⟨y, among, rises⟩ := each x member
  exact rises.trans (rises_foldl_of_mem among)

end Rising

namespace DevelopmentRule

instance (rule : DevelopmentRule) : Std.Associative rule.merge := ⟨rule.merge_assoc⟩
instance (rule : DevelopmentRule) : Std.Commutative rule.merge := ⟨rule.merge_comm⟩
instance (rule : DevelopmentRule) : Std.IdempotentOp rule.merge := ⟨rule.merge_self⟩

structure Settles (rule : DevelopmentRule) (before after : Option Bool) : Prop where
  known : before.isSome → after.isSome
  preferred : before = some rule.preferred → after = some rule.preferred

theorem settles_iff {rule : DevelopmentRule} {before after : Option Bool} :
    rule.Settles before after ↔ Rises rule.merge before after := by
  have fields : rule.Settles before after ↔ (before.isSome → after.isSome) ∧
      (before = some rule.preferred → after = some rule.preferred) :=
    ⟨fun s => ⟨s.known, s.preferred⟩, fun ⟨known, preferred⟩ => ⟨known, preferred⟩⟩
  rw [fields, Rises]
  cases rule <;> rcases before with _ | _ | _ <;> rcases after with _ | _ | _ <;>
    simp [merge, preferred]

end DevelopmentRule

namespace Scope

instance : Std.Associative merge := ⟨merge_assoc⟩
instance : Std.Commutative merge := ⟨merge_comm⟩
instance : Std.IdempotentOp merge := ⟨merge_self⟩

def Climbs (before after : Option Scope) : Prop :=
  ∀ s, before = some s → ∃ t, after = some t ∧ t.rank ≤ s.rank

theorem climbs_iff {before after : Option Scope} :
    Climbs before after ↔ Rises merge before after := by
  rw [Rises]
  cases before with
  | none => simp [Climbs]
  | some s =>
    cases after with
    | none => simp [Climbs, merge]
    | some t =>
      simp only [Climbs, merge, Option.some.injEq, forall_eq', exists_eq_left']
      split
      next lower => simp [Nat.le_of_lt lower]
      next upper =>
        refine ⟨fun le => rank_injective ?_, fun same => same ▸ Nat.le_refl _⟩
        exact Nat.le_antisymm (Nat.le_of_not_lt upper) le

end Scope

namespace Detected

variable {rule : DevelopmentRule} {ds ds' : List Detected} {c d : Detected}

structure OutgrownBy (rule : DevelopmentRule) (c d : Detected) : Prop where
  id : d.id = c.id
  filePaths : ∀ path, c.filePaths.contains path = true → d.filePaths.contains path = true
  roots : ∀ id, c.roots.containsId id = true → d.roots.containsId id = true
  frameworks : ∀ name, c.frameworks.contains name = true → d.frameworks.contains name = true
  explicit : c.explicit = true → d.explicit = true
  development : rule.Settles c.development d.development
  scope : Scope.Climbs c.scope d.scope

theorem any_of_each {α : Type u} {p : α → Bool} {R : α → α → Prop} {l m : List α}
    (each : ∀ x ∈ l, ∃ y ∈ m, R x y) (keeps : ∀ x y, R x y → p x = true → p y = true)
    (found : l.any p = true) : m.any p = true := by
  obtain ⟨x, member, holds⟩ := List.any_eq_true.mp found
  obtain ⟨y, among, related⟩ := each x member
  exact List.any_eq_true.mpr ⟨y, among, keeps x y related holds⟩

/-- If each observation is outgrown by one of the others, so is what they come to. -/
theorem Combined.outgrownBy (combined : Combined rule ds c) (combined' : Combined rule ds' d)
    (id : d.id = c.id) (each : ∀ o ∈ ds, ∃ o' ∈ ds', o.OutgrownBy rule o') :
    c.OutgrownBy rule d where
  id := id
  filePaths path := by
    rw [combined.filePaths, combined'.filePaths]
    exact any_of_each each fun _ _ outgrown => outgrown.filePaths path
  roots root := by
    rw [ComponentSet.containsId, ComponentSet.containsId, contains_of_findSome? combined.roots,
      contains_of_findSome? combined'.roots]
    exact any_of_each each fun _ _ outgrown => outgrown.roots root
  frameworks name := by
    rw [combined.frameworks, combined'.frameworks]
    exact any_of_each each fun _ _ outgrown => outgrown.frameworks name
  explicit := by
    rw [combined.explicit, combined'.explicit]
    exact any_of_each each fun _ _ outgrown => outgrown.explicit
  development := by
    rw [combined.development, combined'.development, DevelopmentRule.settles_iff]
    refine Rises.foldl_of_each (.refl none) fun x member => ?_
    obtain ⟨o, among, rfl⟩ := List.mem_map.mp member
    obtain ⟨o', among', outgrown⟩ := each o among
    exact ⟨_, List.mem_map_of_mem among', DevelopmentRule.settles_iff.mp outgrown.development⟩
  scope := by
    rw [combined.scope, combined'.scope, Scope.climbs_iff]
    refine Rises.foldl_of_each (.refl none) fun x member => ?_
    obtain ⟨o, among, rfl⟩ := List.mem_map.mp member
    obtain ⟨o', among', outgrown⟩ := each o among
    exact ⟨_, List.mem_map_of_mem among', Scope.climbs_iff.mp outgrown.scope⟩

/-- Results are outgrown with the observations behind them. -/
theorem mergeAll_outgrownBy (each : ∀ o ∈ ds, ∃ o' ∈ ds', o.OutgrownBy rule o')
    (member : c ∈ mergeAll rule ds) : ∃ d ∈ mergeAll rule ds', c.OutgrownBy rule d := by
  obtain ⟨o, observed, same⟩ := exists_mem_mergeAll.mp ⟨c, member, rfl⟩
  obtain ⟨o', observed', outgrown⟩ := each o observed
  obtain ⟨d, member', id⟩ := exists_mem_mergeAll.mpr ⟨o', observed', outgrown.id.trans same⟩
  refine ⟨d, member', (combined_of_mem_mergeAll member).outgrownBy
    (combined_of_mem_mergeAll member') id fun x among => ?_⟩
  obtain ⟨observed, same⟩ := List.mem_filter.mp among
  obtain ⟨y, observed', outgrown⟩ := each x observed
  refine ⟨y, List.mem_filter.mpr ⟨observed', ?_⟩, outgrown⟩
  rw [outgrown.id, id]
  exact same

end Detected

end Inventory
