import Inventory.Proofs.Graph.Roots
import Inventory.Proofs.Graph.Shared
import Mathlib.Algebra.GroupWithZero.Nat
import Mathlib.Algebra.Order.BigOperators.Group.List
import Mathlib.Algebra.Order.Group.Nat

/-! The search for explicit components as the loop that it is, on a graph that any additions have
built. The stack may grow from pass to pass, and an id may wait on it several times; what goes down
with every pass is its length together with the edges above the ids that were not visited. -/
namespace Inventory.Graph

variable {g : Graph} {id : String} {stack : List String} {visited roots : StringSet}

structure Search where
  stack : List String
  visited : StringSet := .empty
  roots : StringSet := .empty

namespace Search

/-- One pass takes one id off the stack. -/
def pass (g : Graph) (s : Search) : Search :=
  match s.stack with
  | [] => s
  | id :: rest =>
    if s.visited.contains id then { s with stack := rest }
    else
      let visited := s.visited.add id
      { stack := (g.parents id).reverse.filter (!visited.contains ·) ++ rest
        visited := visited
        roots := if g.isExplicit id then s.roots.add id else s.roots }

theorem pass_seen {rest : List String} (seen : visited.contains id = true) :
    pass g ⟨id :: rest, visited, roots⟩ = ⟨rest, visited, roots⟩ := by
  simp [pass, seen]

theorem pass_fresh {rest : List String} (fresh : ¬ visited.contains id = true) :
    pass g ⟨id :: rest, visited, roots⟩ =
      ⟨(g.parents id).reverse.filter (!(visited.add id).contains ·) ++ rest, visited.add id,
        if g.isExplicit id then roots.add id else roots⟩ := by
  simp [pass, fresh]

end Search

/-- The edges above ids that were not visited. -/
def openEdges (g : Graph) (visited : StringSet) : Nat :=
  (g.ids.map fun x => if visited.contains x then 0 else (g.parents x).length).sum

/-- The edges of a graph, counted at their lower ends. -/
def edgeCount (g : Graph) : Nat := (g.ids.map fun x => (g.parents x).length).sum

theorem openEdges_empty (g : Graph) : g.openEdges .empty = g.edgeCount := by
  simp [openEdges, edgeCount]

/-- One term that goes down by `k` takes the sum down with it. -/
theorem sum_map_add_le {α : Type u} {l : List α} {f f' : α → Nat} {a : α} {k : Nat}
    (le : ∀ x, f' x ≤ f x) (member : a ∈ l) (less : f' a + k ≤ f a) :
    (l.map f').sum + k ≤ (l.map f).sum := by
  induction l with
  | nil => cases member
  | cons x l ih =>
    simp only [List.map_cons, List.sum_cons]
    rcases List.mem_cons.mp member with rfl | later
    · have others := List.sum_le_sum (l := l) fun x _ => le x
      omega
    · have here := le x
      have others := ih later
      omega

/-- Visiting an id closes all edges above it. -/
theorem openEdges_add (fresh : ¬ visited.contains id = true) :
    g.openEdges (visited.add id) + (g.parents id).length ≤ g.openEdges visited := by
  have le (x : String) : (if (visited.add id).contains x then 0 else (g.parents x).length) ≤
      if visited.contains x then 0 else (g.parents x).length := by
    cases old : visited.contains x with
    | true => simp [old]
    | false => by_cases same : id = x <;> simp [old, same]
  by_cases here : id ∈ g.ids
  · exact sum_map_add_le le here (by simp [fresh])
  · have none : g.parents id = [] :=
      List.eq_nil_iff_forall_not_mem.mpr fun _ parent => here (mem_ids_of_parents parent)
    rw [none]
    exact List.sum_le_sum fun x _ => le x

/-- After so many passes the stack is empty, and what was noted is what the search returns. -/
theorem exists_passes (g : Graph) (stack : List String) (visited roots : StringSet) :
    ∃ n ≤ stack.length + g.openEdges visited, ∃ visited', (Search.pass g)^[n]
      ⟨stack, visited, roots⟩ = ⟨[], visited', g.collectExplicit stack visited roots⟩ := by
  induction stack, visited, roots using collectExplicit.induct (g := g) with
  | case1 visited roots =>
    refine ⟨0, Nat.zero_le _, visited, ?_⟩
    rw [collectExplicit]
    rfl
  | case2 visited roots id rest seen ih =>
    obtain ⟨n, bound, visited', run⟩ := ih
    refine ⟨n + 1, ?_, visited', ?_⟩
    · rw [List.length_cons]
      omega
    · rw [Function.iterate_succ_apply, Search.pass_seen seen, run, collectExplicit, dif_pos seen]
  | case3 visited roots id rest fresh visited₁ roots₁ none ih =>
    obtain ⟨n, bound, visited', run⟩ := ih
    have closes : g.openEdges visited₁ + (g.parents id).length ≤ g.openEdges visited :=
      openEdges_add fresh
    refine ⟨n + 1, ?_, visited', ?_⟩
    · rw [List.length_cons]
      omega
    · rw [Function.iterate_succ_apply, Search.pass_fresh fresh, none, collectExplicit,
        dif_neg fresh, dif_pos none]
      exact run
  | case4 visited roots id rest fresh visited₁ roots₁ some ih =>
    obtain ⟨n, bound, visited', run⟩ := ih
    have closes : g.openEdges visited₁ + (g.parents id).length ≤ g.openEdges visited :=
      openEdges_add fresh
    have pushed : ((g.parents id).reverse.filter (!visited₁.contains ·)).length ≤
        (g.parents id).length := by
      have same : (g.parents id).reverse.length = (g.parents id).length := List.length_reverse
      exact same ▸ List.length_filter_le ..
    refine ⟨n + 1, ?_, visited', ?_⟩
    · rw [List.length_append] at bound
      rw [List.length_cons]
      omega
    · rw [Function.iterate_succ_apply, Search.pass_fresh fresh, collectExplicit, dif_neg fresh,
        dif_neg some]
      exact run

def addAll (g : Graph) (calls : List Addition) : Graph :=
  calls.foldl (fun g c => g.add c.sighting c.parent) g

/-- The calls in turn are one of their interleavings, with none of them in flight at its end. -/
theorem execute_inTurn (g : Graph) (calls : List Addition) :
    (calling g calls).execute Task.step (Shared.inTurn 3 calls.length) =
      ⟨g.addAll calls, List.replicate calls.length .done⟩ :=
  Shared.execute_in_turn iterate_step_see g calls

theorem consistent_addAll (manualRoots : Bool) (rule : DevelopmentRule) (calls : List Addition) :
    Consistent (addAll { manualRoots, rule } calls) := by
  have both := execute_both (start_progress { manualRoots, rule } calls)
    (start_invariant (consistent_empty manualRoots rule) calls) (Shared.inTurn 3 calls.length)
  rw [execute_inTurn] at both
  exact both.2.consistent (quiet_of_finished (by simp [finished]))

theorem Consistent.below_iff (consistent : g.Consistent) {top : String} :
    g.Below id top ↔ top = id ∨ Relation.TransGen g.HasChild top id := by
  have down : g.HasParent = Function.swap g.HasChild :=
    funext₂ fun child parent => propext (consistent.child_iff_parent parent child).symm
  rw [Below, down, Relation.reflTransGen_swap, Relation.reflTransGen_iff_eq_or_transGen]
  exact or_congr eq_comm Iff.rfl

theorem explicitRoots_eq_error_iff : g.explicitRoots id = .error (.unknownComponent id) ↔
    id = "" ∨ g.contains id = false := by
  unfold explicitRoots
  split <;> simp_all

theorem explicitRoots_of_contains (named : id ≠ "") (here : g.contains id = true) :
    g.explicitRoots id = .ok (g.collectExplicit [id] .empty .empty) := by
  simp [explicitRoots, named, here]

theorem known_of_explicitRoots (found : g.explicitRoots id = .ok roots) :
    id ≠ "" ∧ g.contains id = true := by
  by_contra unknown
  rw [not_and_or, not_not, Bool.not_eq_true, ← explicitRoots_eq_error_iff, found] at unknown
  cases unknown

theorem contains_of_explicitRoots {root : String} (found : g.explicitRoots id = .ok roots) :
    roots.contains root = true ↔ g.isExplicit root = true ∧ g.Below id root := by
  obtain ⟨named, here⟩ := known_of_explicitRoots found
  have above := contains_explicitRoots (y := root) named here
  rwa [found] at above

/-- The search from an id of a graph ends after at most one pass for each edge and one more, cycles
or not. It returns the explicit components that are the id itself or lead down to it, and refuses
just the empty id and those that the graph does not have. -/
theorem explicitRoots_leading_down (manualRoots : Bool) (rule : DevelopmentRule)
    (calls : List Addition) (id : String) :
    let g := addAll { manualRoots, rule } calls
    (g.explicitRoots id = .error (.unknownComponent id) ↔ id = "" ∨ g.contains id = false) ∧
      (¬ (id = "" ∨ g.contains id = false) → ∃ roots, g.explicitRoots id = .ok roots ∧
        (∃ n ≤ g.edgeCount + 1, ∃ visited,
          (Search.pass g)^[n] { stack := [id] } = ⟨[], visited, roots⟩) ∧
        ∀ r, roots.contains r = true ↔
          g.isExplicit r = true ∧ (r = id ∨ Relation.TransGen g.HasChild r id)) := by
  intro g
  refine ⟨explicitRoots_eq_error_iff, fun known => ?_⟩
  obtain ⟨named, there⟩ := not_or.mp known
  have here : g.contains id = true := by simpa using there
  have consistent : g.Consistent := consistent_addAll manualRoots rule calls
  have found := explicitRoots_of_contains named here
  obtain ⟨n, bound, visited, run⟩ := exists_passes g [id] .empty .empty
  rw [openEdges_empty, List.length_singleton, Nat.add_comm] at bound
  refine ⟨_, found, ⟨n, bound, visited, run⟩, fun r => ?_⟩
  have above := contains_explicitRoots (y := r) named here
  rw [found] at above
  exact above.trans (and_congr_right fun _ => consistent.below_iff)

end Inventory.Graph
