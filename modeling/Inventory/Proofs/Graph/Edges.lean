import Inventory.Graph.Basic
import Inventory.Proofs.Component.Merging

/-! Edges at their two ends, and what each single write does to them. `Consistent` is what holds of
a graph whenever no component is being added; between the writes of an addition an edge may stand at
its upper end alone. -/
namespace Inventory.Graph

variable {g h : Graph} {a b id parent child : String}

/-- The upper end of an edge. -/
def HasChild (g : Graph) (parent child : String) : Prop :=
  ∃ n, g.node? parent = some n ∧ n.children.contains child = true

/-- The lower end of an edge. -/
def HasParent (g : Graph) (child parent : String) : Prop :=
  ∃ n, g.node? child = some n ∧ n.parents.contains parent = true

structure Consistent (g : Graph) : Prop where
  child_iff_parent : ∀ a b, g.HasChild a b ↔ g.HasParent b a
  closed : ∀ a b, g.HasChild a b → g.contains a = true ∧ g.contains b = true
  irreflexive : ∀ a, ¬ g.HasChild a a

theorem consistent_empty (manualRoots : Bool) (rule : DevelopmentRule) :
    Consistent { manualRoots, rule } := by
  constructor <;> simp [HasChild, HasParent, node?]

theorem contains_iff : g.contains id = true ↔ ∃ n, g.node? id = some n :=
  SortedMap.contains_iff

theorem contains_of_hasChild (edge : g.HasChild parent child) : g.contains parent = true :=
  contains_iff.mpr (edge.imp fun _ found => found.1)

theorem mem_parents : parent ∈ g.parents child ↔ g.HasParent child parent := by
  unfold parents parents? HasParent
  cases g.node? child <;> simp [StringSet.mem_toList]

theorem contains_children : ((g.children? parent).getD .empty).contains child = true ↔
    g.HasChild parent child := by
  unfold children? HasChild
  cases g.node? parent <;> simp

theorem contains_of_isExplicit (explicit : g.isExplicit id = true) : g.contains id = true := by
  unfold isExplicit at explicit
  cases here : g.node? id with
  | none => simp [here] at explicit
  | some n => exact contains_iff.mpr ⟨n, here⟩

theorem mem_explicitIds : id ∈ g.explicitIds ↔ g.isExplicit id = true := by
  simp only [explicitIds, isExplicit, node?, List.mem_map, List.mem_filter, Prod.exists,
    ← SortedMap.get?_eq_some_iff]
  cases here : g.nodes.get? id <;> simp [here]

theorem contains_of_development {value : Bool} (said : g.development? id = some value) :
    g.contains id = true := by
  obtain ⟨n, here, _⟩ := Option.bind_eq_some_iff.mp said
  exact contains_iff.mpr ⟨n, here⟩

theorem contains_of_scope {s : Scope} (said : g.scope? id = some s) :
    g.contains id = true := by
  obtain ⟨n, here, _⟩ := Option.bind_eq_some_iff.mp said
  exact contains_iff.mpr ⟨n, here⟩

theorem isEmpty_eq_false (here : g.contains id = true) : g.isEmpty = false :=
  SortedMap.isEmpty_eq_false_iff.mpr ⟨id, here⟩

theorem node?_see (g : Graph) (s : Sighting) (id : String) :
    (g.see s).node? id =
      if s.id = id then some (Node.see g.rule s ((g.node? s.id).getD {})) else g.node? id := by
  unfold node? see
  rw [SortedMap.get?_upsert]
  cases g.nodes.get? s.id <;> simp [Node.see]

@[simp] theorem contains_see (g : Graph) (s : Sighting) (id : String) :
    (g.see s).contains id = (s.id == id || g.contains id) :=
  SortedMap.contains_upsert ..

@[simp] theorem hasChild_see (s : Sighting) : (g.see s).HasChild a b ↔ g.HasChild a b := by
  unfold HasChild
  rw [node?_see]
  by_cases same : s.id = a
  · subst same
    cases g.node? s.id <;> simp [Node.see]
  · simp [same]

@[simp] theorem hasParent_see (s : Sighting) : (g.see s).HasParent b a ↔ g.HasParent b a := by
  unfold HasParent
  rw [node?_see]
  by_cases same : s.id = b
  · subst same
    cases g.node? s.id <;> simp [Node.see]
  · simp [same]

theorem node?_addChild (g : Graph) (parent child id : String) :
    (g.addChild parent child).node? id =
      if parent = id then (g.node? id).map fun n => { n with children := n.children.add child }
      else g.node? id :=
  SortedMap.get?_modify ..

@[simp] theorem contains_addChild (g : Graph) (parent child id : String) :
    (g.addChild parent child).contains id = g.contains id :=
  SortedMap.contains_modify ..

theorem hasChild_addChild : (g.addChild parent child).HasChild a b ↔
    g.HasChild a b ∨ (a = parent ∧ b = child ∧ g.contains parent = true) := by
  unfold HasChild
  rw [node?_addChild, contains_iff]
  by_cases same : parent = a
  · subst same
    cases g.node? parent <;> simp [or_comm, @eq_comm _ b child]
  · simp [same, Ne.symm same]

@[simp] theorem hasParent_addChild :
    (g.addChild parent child).HasParent b a ↔ g.HasParent b a := by
  unfold HasParent
  rw [node?_addChild]
  split <;> simp

theorem node?_addParent (g : Graph) (child parent id : String) :
    (g.addParent child parent).node? id =
      if child = id then (g.node? id).map fun n => { n with parents := n.parents.add parent }
      else g.node? id :=
  SortedMap.get?_modify ..

@[simp] theorem contains_addParent (g : Graph) (child parent id : String) :
    (g.addParent child parent).contains id = g.contains id :=
  SortedMap.contains_modify ..

theorem hasParent_addParent : (g.addParent child parent).HasParent b a ↔
    g.HasParent b a ∨ (b = child ∧ a = parent ∧ g.contains child = true) := by
  unfold HasParent
  rw [node?_addParent, contains_iff]
  by_cases same : child = b
  · subst same
    cases g.node? child <;> simp [or_comm, @eq_comm _ a parent]
  · simp [same, Ne.symm same]

@[simp] theorem hasChild_addParent :
    (g.addParent child parent).HasChild a b ↔ g.HasChild a b := by
  unfold HasChild
  rw [node?_addParent]
  split <;> simp

@[simp] theorem contains_addFailure (g : Graph) (text id : String) :
    (g.addFailure text).contains id = g.contains id := rfl

@[simp] theorem hasChild_addFailure (text : String) :
    (g.addFailure text).HasChild a b ↔ g.HasChild a b := Iff.rfl

@[simp] theorem hasParent_addFailure (text : String) :
    (g.addFailure text).HasParent b a ↔ g.HasParent b a := Iff.rfl

structure Within (g h : Graph) : Prop where
  contains : ∀ id, g.contains id = true → h.contains id = true
  hasChild : ∀ a b, g.HasChild a b → h.HasChild a b
  hasParent : ∀ a b, g.HasParent b a → h.HasParent b a
  failures : ∀ text, g.failures.contains text = true → h.failures.contains text = true

theorem Within.refl (g : Graph) : Within g g :=
  ⟨fun _ => id, fun _ _ => id, fun _ _ => id, fun _ => id⟩

theorem Within.trans {k : Graph} (first : Within g h) (second : Within h k) : Within g k where
  contains id := second.contains id ∘ first.contains id
  hasChild a b := second.hasChild a b ∘ first.hasChild a b
  hasParent a b := second.hasParent a b ∘ first.hasParent a b
  failures text := second.failures text ∘ first.failures text

theorem within_see (g : Graph) (s : Sighting) : Within g (g.see s) where
  contains _ here := by simp [here]
  hasChild _ _ := (hasChild_see s).mpr
  hasParent _ _ := (hasParent_see s).mpr
  failures _ := id

theorem within_addChild (g : Graph) (parent child : String) :
    Within g (g.addChild parent child) where
  contains _ := by simp
  hasChild _ _ edge := hasChild_addChild.mpr (.inl edge)
  hasParent _ _ := hasParent_addChild.mpr
  failures _ := id

theorem within_addParent (g : Graph) (child parent : String) :
    Within g (g.addParent child parent) where
  contains _ := by simp
  hasChild _ _ := hasChild_addParent.mpr
  hasParent _ _ edge := hasParent_addParent.mpr (.inl edge)
  failures _ := id

theorem within_addFailure (g : Graph) (text : String) : Within g (g.addFailure text) where
  contains _ := id
  hasChild _ _ := id
  hasParent _ _ := id
  failures _ here := by simp [addFailure, here]

/-- Nodes are equal when their flags and both their edge sets are. -/
theorem node_ext {m n : Node} (parents : ∀ id, m.parents.contains id = n.parents.contains id)
    (children : ∀ id, m.children.contains id = n.children.contains id)
    (explicit : m.explicit = n.explicit) (development : m.development = n.development)
    (scope : m.scope = n.scope) : m = n := by
  have parents := StringSet.ext parents
  have children := StringSet.ext children
  cases m
  cases n
  simp_all

end Inventory.Graph
