import Inventory.Error
import Inventory.Graph.Basic

/-! What lies above a component. Two traversals answer two questions: a depth-first one collects the
explicit components that bring it in, a breadth-first one lists all dependents, nearest first.
Cycles are allowed; a traversal ends because it visits no id twice. -/
namespace Inventory

theorem countP_lt_countP {p q : α → Bool} {l : List α} (sub : ∀ x ∈ l, q x → p x) {a : α}
    (mem : a ∈ l) (ha : p a) (hb : ¬ q a) : l.countP q < l.countP p := by
  induction l with
  | nil => cases mem
  | cons x rest ih =>
    have le : rest.countP q ≤ rest.countP p :=
      List.countP_mono_left fun y hy => sub y (List.mem_cons_of_mem _ hy)
    rcases List.mem_cons.1 mem with rfl | mem
    · simp only [List.countP_cons, ha, hb]
      simp; omega
    · have lt := ih (fun y hy => sub y (List.mem_cons_of_mem _ hy)) mem
      have step : (if q x then 1 else 0) ≤ (if p x then 1 else 0) := by
        split
        next hq => simp [sub x List.mem_cons_self hq]
        next => exact Nat.zero_le _
      simp only [List.countP_cons]
      omega

namespace Graph

/-- Every id that a traversal may come to. -/
def reachable (g : Graph) : List String := g.ids ++ g.ids.flatMap g.parents

def unvisited (g : Graph) (visited : StringSet) : Nat :=
  g.reachable.countP fun id => !visited.contains id

theorem mem_ids_of_parents {g : Graph} {id p : String} (h : p ∈ g.parents id) : id ∈ g.ids := by
  unfold parents parents? node? at h
  cases e : g.nodes.get? id with
  | none => simp [e] at h
  | some n =>
    simp only [SortedMap.get?, Option.map_eq_some_iff] at e
    obtain ⟨entry, found, -⟩ := e
    have key : entry.1 = id := by simpa using List.find?_some found
    exact key ▸ List.mem_map_of_mem (List.mem_of_find?_eq_some found)

theorem mem_reachable_of_parents {g : Graph} {id p : String} (h : p ∈ g.parents id) :
    p ∈ g.reachable :=
  List.mem_append_right _ (List.mem_flatMap.2 ⟨id, mem_ids_of_parents h, h⟩)

theorem unvisited_add_lt {g : Graph} {visited : StringSet} {id : String} (mem : id ∈ g.reachable)
    (fresh : visited.contains id = false) : g.unvisited (visited.add id) < g.unvisited visited :=
  countP_lt_countP (by simp_all) mem (by simp [fresh]) (by simp)

theorem unvisited_addAll_le (g : Graph) (visited : StringSet) (ids : List String) :
    g.unvisited (visited.addAll ids) ≤ g.unvisited visited :=
  List.countP_mono_left fun x _ h => by
    simp only [StringSet.contains_addAll, Bool.not_or, Bool.and_eq_true] at h
    exact h.2

theorem unvisited_addAll_lt {g : Graph} {visited : StringSet} {ids : List String} {id : String}
    (member : id ∈ ids) (mem : id ∈ g.reachable) (fresh : visited.contains id = false) :
    g.unvisited (visited.addAll ids) < g.unvisited visited :=
  countP_lt_countP
    (fun x _ h => by
      simp only [StringSet.contains_addAll, Bool.not_or, Bool.and_eq_true] at h
      exact h.2)
    mem (by simp [fresh]) (by simp [StringSet.contains_addAll, member])

/-- Depth first: takes the ids of the stack in turn, and goes on to their parents. -/
def collectExplicit (g : Graph) (stack : List String) (visited roots : StringSet) : StringSet :=
  match stack with
  | [] => roots
  | id :: rest =>
    if _seen : visited.contains id then g.collectExplicit rest visited roots
    else
      let visited' := visited.add id
      let roots := if g.isExplicit id then roots.add id else roots
      if _parents : g.parents id = [] then g.collectExplicit rest visited' roots
      else
        g.collectExplicit ((g.parents id).reverse.filter (!visited'.contains ·) ++ rest)
          visited' roots
termination_by (g.unvisited visited, stack.length)
decreasing_by
  · exact Prod.Lex.right _ (Nat.lt_succ_self _)
  · rcases Nat.lt_or_eq_of_le (g.unvisited_addAll_le visited [id]) with lt | eq
    · exact Prod.Lex.left _ _ lt
    · simp only [StringSet.addAll, List.foldl_cons, List.foldl_nil] at eq
      rw [eq]
      exact Prod.Lex.right _ (Nat.lt_succ_self _)
  · obtain ⟨p, hp⟩ := List.exists_mem_of_ne_nil _ _parents
    exact Prod.Lex.left _ _ (unvisited_add_lt
      (List.mem_append_left _ (mem_ids_of_parents hp)) (by simpa using _seen))

/-- The explicitly referenced components from which `id` is reachable, itself included. -/
def explicitRoots (g : Graph) (id : String) : Except Error StringSet :=
  if id.isEmpty || !g.contains id then .error (.unknownComponent id)
  else .ok (g.collectExplicit [id] .empty .empty)

/-- Breadth first: takes the ids of the queue in turn, and notes their parents that were
not noted. -/
def collectAncestors (g : Graph) (queue : List String) (visited : StringSet) (noted : List String) :
    List String :=
  match queue with
  | [] => noted
  | id :: rest =>
    let fresh := (g.parents id).filter (!visited.contains ·)
    g.collectAncestors (rest ++ fresh) (visited.addAll fresh) (noted ++ fresh)
termination_by (g.unvisited visited, queue.length)
decreasing_by
  cases e : (g.parents id).filter (!visited.contains ·) with
  | nil =>
    simp only [StringSet.addAll, List.foldl_nil, List.append_nil]
    exact Prod.Lex.right _ (Nat.lt_succ_self _)
  | cons p ps =>
    have mem : p ∈ (g.parents id).filter (!visited.contains ·) := e ▸ List.mem_cons_self
    obtain ⟨parent, unseen⟩ := List.mem_filter.1 mem
    exact Prod.Lex.left _ _ (unvisited_addAll_lt List.mem_cons_self
      (mem_reachable_of_parents parent) (by simpa using unseen))

/-- Every transitive dependent of `id` but itself. What is not in the graph has none. -/
def ancestors (g : Graph) (id : String) : List String :=
  if g.contains id then g.collectAncestors [id] (StringSet.ofList [id]) [] else []

end Graph

end Inventory
