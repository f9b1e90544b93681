import Inventory.Proofs.Graph.Growth
import Mathlib.Data.Fintype.Card
import Mathlib.Order.RelIso.Set

/-! Roots that are inferred. A graph that does not track them by hand takes the components without
parents for its roots. Going up from a component, one comes to such a root or to a cycle, since the
ancestors are finitely many. What the callers said of roots is kept but not asked for: a graph
without these flags goes through the same steps and gives the same answers. -/
namespace Inventory.Graph

variable {g h : Graph} {id x root : String} {roots : StringSet} {calls : List Addition}

def Above (g : Graph) (top id : String) : Prop := Relation.TransGen g.HasParent id top

def OnCycle (g : Graph) (id : String) : Prop := g.Above id id

instance (g : Graph) : IsTrans String g.Above := ⟨fun _ _ _ upper lower => lower.trans upper⟩

/-- If all of them have parents, there is no end to going up but a cycle. -/
theorem exists_onCycle (up : ∀ x ∈ id :: g.ancestors id, g.parents x ≠ []) :
    ∃ x ∈ id :: g.ancestors id, g.OnCycle x := by
  by_contra none
  -- Without a cycle, to be above is a strict order, and one of the finitely many is on top.
  have : Std.Irrefl (Subrel g.Above (· ∈ id :: g.ancestors id)) :=
    ⟨fun x back => none ⟨x.1, x.2, back⟩⟩
  have ordered := Finite.wellFounded_of_trans_of_irrefl (Subrel g.Above (· ∈ id :: g.ancestors id))
  obtain ⟨top, -, highest⟩ := ordered.has_min Set.univ ⟨⟨id, List.mem_cons_self⟩, trivial⟩
  obtain ⟨p, parent⟩ := List.exists_mem_of_ne_nil _ (up top.1 top.2)
  have edge : g.HasParent top.1 p := mem_parents.mp parent
  have member : p ∈ id :: g.ancestors id :=
    mem_self_or_ancestors.mpr ((mem_self_or_ancestors.mp top.2).tail edge)
  exact highest ⟨p, member⟩ trivial (.single edge)

/-- What holds of a graph that infers its roots, whatever is being added to it. -/
structure Automatic (g : Graph) : Prop where
  inferred : g.manualRoots = false
  named : ∀ id, g.contains id = true → id ≠ ""
  closed : ∀ child parent, g.HasParent child parent → g.contains parent = true

theorem isExplicit_of_inferred (inferred : g.manualRoots = false) :
    g.isExplicit id = true ↔ g.contains id = true ∧ g.parents id = [] := by
  rw [isExplicit, parents, parents?, contains_iff, inferred]
  cases g.node? id with
  | none => simp
  | some n => simp [Node.isExplicit, SortedMap.isEmpty, StringSet.toList, SortedMap.keys]

namespace Automatic

variable (a : Automatic g)

include a

theorem contains_of_below (here : g.contains id = true) (below : g.Below id x) :
    g.contains x = true := by
  cases below with
  | refl => exact here
  | tail _ edge => exact a.closed _ _ edge

/-- The roots of a component are the parentless among itself and its ancestors. -/
theorem contains_roots (found : g.explicitRoots id = .ok roots) :
    roots.contains root = true ↔ root ∈ id :: g.ancestors id ∧ g.parents root = [] := by
  have here := (known_of_explicitRoots found).2
  rw [contains_of_explicitRoots found, isExplicit_of_inferred a.inferred, mem_self_or_ancestors]
  constructor
  · rintro ⟨⟨_, parentless⟩, below⟩
    exact ⟨below, parentless⟩
  · rintro ⟨below, parentless⟩
    exact ⟨⟨a.contains_of_below here below, parentless⟩, below⟩

theorem roots_eq_empty_iff (found : g.explicitRoots id = .ok roots) :
    roots = .empty ↔ ∀ x ∈ id :: g.ancestors id, g.parents x ≠ [] := by
  constructor
  · rintro rfl x member parentless
    exact absurd ((a.contains_roots found).mpr ⟨member, parentless⟩) (by simp)
  · intro up
    refine StringSet.ext fun x => Bool.eq_false_iff.mpr fun isRoot => ?_
    obtain ⟨member, parentless⟩ := (a.contains_roots found).mp isRoot
    exact up x member parentless

theorem exists_root (acyclic : ∀ x, ¬ g.OnCycle x) (found : g.explicitRoots id = .ok roots) :
    ∃ root, roots.contains root = true := by
  by_contra none
  have empty : roots = .empty :=
    StringSet.ext fun x => Bool.eq_false_iff.mpr fun isRoot => none ⟨x, isRoot⟩
  obtain ⟨x, _, cycle⟩ := exists_onCycle ((a.roots_eq_empty_iff found).mp empty)
  exact acyclic x cycle

theorem exists_roots (here : g.contains id = true) : ∃ roots, g.explicitRoots id = .ok roots :=
  ⟨_, explicitRoots_of_contains (a.named id here) here⟩

/-- A root of any component is a root of itself. -/
theorem mem_explicitIds_iff : root ∈ g.explicitIds ↔ ∃ id, g.contains id = true ∧
    ∃ roots, g.explicitRoots id = .ok roots ∧ roots.contains root = true := by
  rw [mem_explicitIds, isExplicit_of_inferred a.inferred]
  constructor
  · rintro ⟨here, parentless⟩
    obtain ⟨roots, found⟩ := a.exists_roots here
    exact ⟨root, here, roots, found,
      (a.contains_roots found).mpr ⟨List.mem_cons_self, parentless⟩⟩
  · rintro ⟨id, here, roots, found, isRoot⟩
    obtain ⟨member, parentless⟩ := (a.contains_roots found).mp isRoot
    exact ⟨a.contains_of_below here (mem_self_or_ancestors.mp member), parentless⟩

end Automatic

/-- A component is in the graph only if it was there or a call said something of it. -/
theorem exists_call_of_contains {schedule : List Nat}
    (here : ((calling g calls).execute Task.step schedule).state.contains id = true) :
    g.contains id = true ∨ ∃ c ∈ calls, c.id = id := by
  obtain ⟨said, perm, graph⟩ := Shared.execute_log says_step bare_step (calling g calls) schedule
  rw [← contains_bare, graph, contains_foldl_see, Bool.or_eq_true, List.any_eq_true] at here
  rcases here with old | ⟨s, member, same⟩
  · exact .inl (by simpa [calling] using old)
  · have asked := perm.mem_iff.mp (List.mem_append_left _ member)
    obtain ⟨t, task, told⟩ := List.mem_filterMap.mp asked
    obtain ⟨c, call, rfl⟩ := List.mem_map.mp task
    obtain rfl : c.sighting = s := Option.some.inj told
    exact .inr ⟨c, call, by simpa [Addition.id] using same⟩

/-- A new graph that infers its roots, at some point while calls add components to it. -/
def inferring (rule : DevelopmentRule) (schedule : List Nat) (calls : List Addition) : Graph :=
  ((calling { manualRoots := false, rule } calls).execute Task.step schedule).state

/-- Calls one after another are one of the interleavings. -/
theorem inferring_inTurn (rule : DevelopmentRule) (calls : List Addition) :
    inferring rule (Shared.inTurn 3 calls.length) calls =
      addAll { manualRoots := false, rule } calls :=
  congrArg Shared.state (execute_inTurn { manualRoots := false, rule } calls)

theorem manualRoots_inferring (rule : DevelopmentRule) (schedule : List Nat)
    (calls : List Addition) : (inferring rule schedule calls).manualRoots = false :=
  (grows_execute ..).manualRoots

theorem automatic_inferring (rule : DevelopmentRule) (schedule : List Nat)
    (named : ∀ c ∈ calls, c.id ≠ "") : Automatic (inferring rule schedule calls) where
  inferred := manualRoots_inferring ..
  named id here := by
    rcases exists_call_of_contains here with old | ⟨c, call, rfl⟩
    · simp [contains] at old
    · exact named c call
  closed child parent edge := by
    have both := execute_both (start_progress { manualRoots := false, rule } calls)
      (start_invariant (consistent_empty false rule) calls) schedule
    exact contains_of_hasChild (both.2.child_of_parent parent child edge)

def unmarkedNode (n : Node) : Node := { n with explicit := false }

def unmarked (g : Graph) : Graph := { g with nodes := g.nodes.map unmarkedNode }

def Addition.unmarked (c : Addition) : Addition :=
  { c with sighting := { c.sighting with explicit := false } }

def Task.unmarked : Task → Task
  | see c => see c.unmarked
  | t => t

theorem node?_unmarked (g : Graph) (id : String) :
    g.unmarked.node? id = (g.node? id).map unmarkedNode :=
  SortedMap.get?_map ..

theorem contains_unmarked (g : Graph) (id : String) : g.unmarked.contains id = g.contains id := by
  rw [Bool.eq_iff_iff, contains_iff, contains_iff, node?_unmarked]
  cases g.node? id <;> simp

theorem unmarked_see (g : Graph) (c : Addition) :
    (g.see c.sighting).unmarked = g.unmarked.see c.unmarked.sighting := by
  refine ext_node? (fun id => ?_) rfl rfl rfl rfl
  rw [node?_unmarked, node?_see, node?_see, node?_unmarked, node?_unmarked]
  by_cases same : c.sighting.id = id
  · subst same
    cases here : g.node? c.sighting.id <;>
      simp [here, Node.see, unmarkedNode, unmarked, Addition.unmarked]
  · simp [same, Addition.unmarked]

/-- Writes to the edges of a node neither ask for its flag nor change it. -/
theorem unmarked_modify (g : Graph) (id : String) {f : Node → Node}
    (commutes : ∀ n, unmarkedNode (f n) = f (unmarkedNode n)) :
    unmarked { g with nodes := g.nodes.modify id f } =
      { g.unmarked with nodes := g.unmarked.nodes.modify id f } := by
  refine ext_node? (fun key => ?_) rfl rfl rfl rfl
  rw [node?_unmarked, node?, node?, SortedMap.get?_modify, SortedMap.get?_modify,
    show g.unmarked.nodes.get? key = _ from node?_unmarked g key]
  split
  · rw [Option.map_map, Option.map_map, show unmarkedNode ∘ f = f ∘ unmarkedNode from
      funext commutes]
    rfl
  · rfl

theorem unmarked_afterSee (c : Addition) :
    (Task.afterSee c).unmarked = Task.afterSee c.unmarked := by
  obtain ⟨sighting, parent⟩ := c
  cases parent with
  | none => rfl
  | some parent =>
    by_cases self : parent = sighting.id <;>
      simp [Task.afterSee, Addition.unmarked, Addition.id, self, Task.unmarked]

/-- Calls go on in lockstep with the same calls that say nothing of roots. -/
theorem unmarked_step (g : Graph) (t : Task) :
    ((t.step g).1.unmarked, (t.step g).2.unmarked) = t.unmarked.step g.unmarked := by
  cases t with
  | see c => exact Prod.ext (unmarked_see g c) (unmarked_afterSee c)
  | link parent child =>
    simp only [Task.step, Task.unmarked, contains_unmarked]
    split
    · exact Prod.ext (unmarked_modify g parent fun _ => rfl) rfl
    · rfl
  | backlink parent child => exact Prod.ext (unmarked_modify g _ fun _ => rfl) rfl
  | report => rfl
  | done => rfl

theorem unmarked_inferring (rule : DevelopmentRule) (schedule : List Nat)
    (calls : List Addition) : (inferring rule schedule calls).unmarked =
      inferring rule schedule (calls.map Addition.unmarked) := by
  have start : Shared.view unmarked Task.unmarked (calling { manualRoots := false, rule } calls) =
      calling { manualRoots := false, rule } (calls.map Addition.unmarked) := by
    simp only [Shared.view, calling, List.map_map]
    rfl
  rw [inferring, inferring, ← start, ← Shared.execute_map unmarked_step]
  rfl

structure Answers where
  contains : String → Bool
  isEmpty : Bool
  size : Nat
  ids : List String
  children? : String → Option StringSet
  parents? : String → Option StringSet
  development? : String → Option Bool
  scope? : String → Option Scope
  isExplicit : String → Bool
  explicitIds : List String
  explicitRoots : String → Except Error StringSet
  ancestors : String → List String
  failures : StringSet
  relatedFiles : StringSet

def answers (g : Graph) : Answers where
  contains := g.contains
  isEmpty := g.isEmpty
  size := g.size
  ids := g.ids
  children? := g.children?
  parents? := g.parents?
  development? := g.development?
  scope? := g.scope?
  isExplicit := g.isExplicit
  explicitIds := g.explicitIds
  explicitRoots := g.explicitRoots
  ancestors := g.ancestors
  failures := g.failures
  relatedFiles := g.relatedFiles

/-- The search asks a graph for nothing but parents and explicit components. -/
theorem collectExplicit_congr (parents : g.parents = h.parents)
    (explicit : g.isExplicit = h.isExplicit) (stack : List String) (visited roots : StringSet) :
    g.collectExplicit stack visited roots = h.collectExplicit stack visited roots := by
  induction stack, visited, roots using collectExplicit.induct (g := g) with
  | case1 => rw [collectExplicit, collectExplicit]
  | case2 _ _ _ _ seen ih => rw [collectExplicit, collectExplicit, dif_pos seen, dif_pos seen, ih]
  | case3 _ _ _ _ fresh _ _ none ih =>
    rw [collectExplicit, collectExplicit, dif_neg fresh, dif_neg fresh, dif_pos none,
      dif_pos (parents ▸ none), ← explicit]
    exact ih
  | case4 _ _ _ _ fresh _ _ some ih =>
    rw [collectExplicit, collectExplicit, dif_neg fresh, dif_neg fresh, dif_neg some,
      dif_neg (parents ▸ some), ← explicit, ← parents]
    exact ih

theorem collectAncestors_congr (parents : g.parents = h.parents) (queue : List String)
    (visited : StringSet) (noted : List String) :
    g.collectAncestors queue visited noted = h.collectAncestors queue visited noted := by
  induction queue, visited, noted using collectAncestors.induct (g := g) with
  | case1 => rw [collectAncestors, collectAncestors]
  | case2 visited noted id rest fresh ih =>
    rw [collectAncestors, collectAncestors, ← parents]
    exact ih

theorem answers_unmarked (inferred : g.manualRoots = false) : g.unmarked.answers = g.answers := by
  have contains : g.unmarked.contains = g.contains := funext (contains_unmarked g)
  have asked {β : Type} {f : Node → β} (blind : ∀ n, f (unmarkedNode n) = f n) (id : String) :
      (g.unmarked.node? id).map f = (g.node? id).map f := by
    rw [node?_unmarked, Option.map_map, show f ∘ unmarkedNode = f from funext blind]
  have parents? : g.unmarked.parents? = g.parents? := funext (asked fun _ => rfl)
  have parents : g.unmarked.parents = g.parents := by
    funext id
    rw [Graph.parents, Graph.parents, parents?]
  have explicit : g.unmarked.isExplicit = g.isExplicit := by
    funext id
    rw [Bool.eq_iff_iff, isExplicit_of_inferred inferred,
      isExplicit_of_inferred (g := g.unmarked) inferred, contains, parents]
  have ids : g.unmarked.ids = g.ids := SortedMap.keys_eq (contains_unmarked g)
  have roots : g.unmarked.explicitIds = g.explicitIds := by
    simp [explicitIds, unmarked, SortedMap.map, List.filter_map, Function.comp_def,
      Node.isExplicit, inferred, unmarkedNode]
  have said {β : Type} {f : Node → Option β} (blind : ∀ n, f (unmarkedNode n) = f n) (id : String) :
      (g.unmarked.node? id).bind f = (g.node? id).bind f := by
    rw [node?_unmarked, Option.bind_map, show f ∘ unmarkedNode = f from funext blind]
  simp only [answers, Answers.mk.injEq]
  refine ⟨contains, ?_, ?_, ids, ?_, parents?, ?_, ?_, explicit, roots, ?_, ?_, rfl, rfl⟩
  · simp [isEmpty, SortedMap.isEmpty, unmarked, SortedMap.map]
  · simp [size, SortedMap.size, unmarked, SortedMap.map]
  · exact funext (asked fun _ => rfl)
  · exact funext (said fun _ => rfl)
  · exact funext (said fun _ => rfl)
  · funext id
    rw [explicitRoots, explicitRoots, contains, collectExplicit_congr parents explicit]
  · funext id
    rw [ancestors, ancestors, contains, collectAncestors_congr parents]

/-- Additions on a new graph that infers its roots, in any interleaving of their accesses and at any
point of it. Nothing is a root of a component just when all that leads down to it, itself included,
has parents, and then a cycle leads down to it. So without cycles every component has a root. A root
has no parents, the roots of the graph are those of its components, and calls that differ only in
what they say of roots come to graphs that answer every question alike. -/
theorem automatic_roots (rule : DevelopmentRule) (calls : List Addition)
    (named : ∀ c ∈ calls, c.id ≠ "") (schedule : List Nat) :
    let g := inferring rule schedule calls
    (∀ id, g.contains id = true → ∃ roots, g.explicitRoots id = .ok roots ∧
      (roots = .empty ↔ ∀ x ∈ id :: g.ancestors id, g.parents x ≠ []) ∧
      (roots = .empty → ∃ x ∈ id :: g.ancestors id, g.OnCycle x) ∧
      ((∀ x, ¬ g.OnCycle x) → ∃ root, roots.contains root = true) ∧
      ∀ root, roots.contains root = true → g.contains root = true ∧ g.parents root = []) ∧
    (∀ root, root ∈ g.explicitIds ↔ ∃ id, g.contains id = true ∧
      ∃ roots, g.explicitRoots id = .ok roots ∧ roots.contains root = true) ∧
    ∀ others : List Addition, others.map Addition.unmarked = calls.map Addition.unmarked →
      (inferring rule schedule others).answers = g.answers := by
  intro g
  have a : Automatic g := automatic_inferring rule schedule named
  refine ⟨fun id here => ?_, fun root => a.mem_explicitIds_iff, fun others same => ?_⟩
  · obtain ⟨roots, found⟩ := a.exists_roots here
    have empty := a.roots_eq_empty_iff found
    refine ⟨roots, found, empty, fun none => exists_onCycle (empty.mp none),
      fun acyclic => a.exists_root acyclic found, fun root isRoot => ?_⟩
    obtain ⟨member, parentless⟩ := (a.contains_roots found).mp isRoot
    exact ⟨a.contains_of_below here (mem_self_or_ancestors.mp member), parentless⟩
  · rw [← answers_unmarked (manualRoots_inferring ..), unmarked_inferring, same,
      ← unmarked_inferring, answers_unmarked a.inferred]

/-- Two components that bring in each other have no root, whatever is said of them. -/
theorem automatic_roots_of_cycle :
    let calls : List Addition := [⟨{ id := "a", explicit := true }, none⟩,
      ⟨{ id := "b" }, some "a"⟩, ⟨{ id := "a", explicit := true }, some "b"⟩]
    let g := addAll { manualRoots := false } calls
    (∀ c ∈ calls, c.id ≠ "") ∧ g.explicitIds = [] ∧ g.explicitRoots "b" = .ok .empty ∧
      ∃ x ∈ "b" :: g.ancestors "b", g.OnCycle x := by
  intro calls g
  have named : ∀ c ∈ calls, c.id ≠ "" := by decide
  have here : g.contains "b" = true := by decide
  have none : g.explicitIds = [] := by decide
  have inferred := automatic_roots .productionWins calls named (Shared.inTurn 3 calls.length)
  rw [inferring_inTurn] at inferred
  obtain ⟨roots, found, _, cycle, _⟩ := inferred.1 "b" here
  have empty : roots = .empty := StringSet.ext fun root => Bool.eq_false_iff.mpr fun isRoot =>
    absurd ((inferred.2.1 root).mpr ⟨"b", here, roots, found, isRoot⟩)
      (none ▸ List.not_mem_nil)
  exact ⟨named, none, empty ▸ found, cycle empty⟩

end Inventory.Graph
