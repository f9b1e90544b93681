import Inventory.Graph.Ancestry
import Inventory.Proofs.Graph.Edges
import Mathlib.Logic.Relation

/-! The explicitly referenced components above a component. The depth-first search keeps two facts:
a parent of what was visited was visited itself or waits on the stack, and what was visited and is
explicit was noted. -/
namespace Inventory.Graph

variable {g : Graph} {id x y : String} {stack : List String} {visited roots : StringSet}

/-- From `id` one comes to `top` by going from components to their parents. -/
def Below (g : Graph) (id top : String) : Prop := Relation.ReflTransGen g.HasParent id top

theorem Below.refl (g : Graph) (id : String) : g.Below id id := Relation.ReflTransGen.refl

theorem Below.head (edge : g.HasParent id x) (above : g.Below x y) : g.Below id y :=
  Relation.ReflTransGen.head edge above

structure Visited (g : Graph) (stack : List String) (visited roots : StringSet) : Prop where
  closed : ∀ x p, visited.contains x = true → g.HasParent x p →
    visited.contains p = true ∨ p ∈ stack
  noted : ∀ x, visited.contains x = true → g.isExplicit x = true → roots.contains x = true

theorem visited_empty (g : Graph) (stack : List String) : Visited g stack .empty .empty := by
  constructor <;> simp

theorem seen_or_waiting (seen : visited.contains id = true)
    (here : visited.contains x = true ∨ x ∈ id :: stack) :
    visited.contains x = true ∨ x ∈ stack := by
  rcases here with old | waiting
  · exact .inl old
  · rcases List.mem_cons.mp waiting with rfl | later
    · exact .inl seen
    · exact .inr later

/-- An id that was seen before is taken off the stack. -/
theorem Visited.skip (v : Visited g (id :: stack) visited roots)
    (seen : visited.contains id = true) : Visited g stack visited roots where
  closed x p here edge := seen_or_waiting seen (v.closed x p here edge)
  noted := v.noted

theorem visited_or_waiting {stack' : List String} (later : ∀ p ∈ stack, p ∈ stack')
    (here : visited.contains x = true ∨ x ∈ id :: stack) :
    (visited.add id).contains x = true ∨ x ∈ stack' := by
  rcases here with old | waiting
  · exact .inl (by simp [old])
  · rcases List.mem_cons.mp waiting with rfl | rest
    · exact .inl (by simp)
    · exact .inr (later x rest)

/-- An id that was not seen before is visited, and all its parents wait or were visited. -/
theorem Visited.visit {stack' : List String} (v : Visited g (id :: stack) visited roots)
    (later : ∀ p ∈ stack, p ∈ stack')
    (parents : ∀ p, g.HasParent id p → (visited.add id).contains p = true ∨ p ∈ stack') :
    Visited g stack' (visited.add id) (if g.isExplicit id then roots.add id else roots) where
  closed x p here edge := by
    by_cases same : id = x
    · exact parents p (same ▸ edge)
    · have old : visited.contains x = true := by simpa [same] using here
      exact visited_or_waiting later (v.closed x p old edge)
  noted x here explicit := by
    by_cases same : id = x
    · subst same
      simp [explicit]
    · have old : visited.contains x = true := by simpa [same] using here
      have noted := v.noted x old explicit
      split
      · simp [noted]
      · exact noted

/-- What is above something visited, with nothing waiting, was visited. -/
theorem Visited.above (v : Visited g [] visited roots) (here : visited.contains x = true)
    (below : g.Below x y) : visited.contains y = true := by
  induction below with
  | refl => exact here
  | tail _ edge ih => exact (v.closed _ _ ih edge).resolve_right List.not_mem_nil

/-- Whatever was noted is explicit and above an id of the stack. -/
theorem below_of_collectExplicit
    (found : (g.collectExplicit stack visited roots).contains y = true) :
    roots.contains y = true ∨ (g.isExplicit y = true ∧ ∃ x ∈ stack, g.Below x y) := by
  induction stack, visited, roots using collectExplicit.induct (g := g) with
  | case1 visited roots => exact .inl (by simpa [collectExplicit] using found)
  | case2 visited roots id rest seen ih =>
    rw [collectExplicit, dif_pos seen] at found
    exact (ih found).imp_right fun ⟨explicit, x, member, below⟩ =>
      ⟨explicit, x, List.mem_cons_of_mem _ member, below⟩
  | case3 visited roots id rest fresh visited' roots' none ih =>
    rw [collectExplicit, dif_neg fresh, dif_pos none] at found
    rcases ih found with noted | ⟨explicit, x, member, below⟩
    · rcases StringSet.contains_add_if.mp noted with old | ⟨explicit, rfl⟩
      · exact .inl old
      · exact .inr ⟨explicit, id, List.mem_cons_self, .refl g id⟩
    · exact .inr ⟨explicit, x, List.mem_cons_of_mem _ member, below⟩
  | case4 visited roots id rest fresh visited' roots' some ih =>
    rw [collectExplicit, dif_neg fresh, dif_neg some] at found
    rcases ih found with noted | ⟨explicit, x, member, below⟩
    · rcases StringSet.contains_add_if.mp noted with old | ⟨explicit, rfl⟩
      · exact .inl old
      · exact .inr ⟨explicit, id, List.mem_cons_self, .refl g id⟩
    · rcases List.mem_append.mp member with parent | later
      · have edge := mem_parents.mp (List.mem_reverse.mp (List.mem_filter.mp parent).1)
        exact .inr ⟨explicit, id, List.mem_cons_self, .head edge below⟩
      · exact .inr ⟨explicit, x, List.mem_cons_of_mem _ later, below⟩

/-- Whatever is explicit and above an id that was visited or waits is noted. -/
theorem contains_collectExplicit (v : Visited g stack visited roots)
    (here : visited.contains x = true ∨ x ∈ stack) (below : g.Below x y)
    (explicit : g.isExplicit y = true) :
    (g.collectExplicit stack visited roots).contains y = true := by
  induction stack, visited, roots using collectExplicit.induct (g := g) with
  | case1 visited roots =>
    rw [collectExplicit]
    exact v.noted y (v.above (here.resolve_right List.not_mem_nil) below) explicit
  | case2 visited roots id rest seen ih =>
    rw [collectExplicit, dif_pos seen]
    exact ih (v.skip seen) (seen_or_waiting seen here)
  | case3 visited roots id rest fresh visited' roots' none ih =>
    rw [collectExplicit, dif_neg fresh, dif_pos none]
    have later : ∀ p ∈ rest, p ∈ rest := fun _ member => member
    refine ih (v.visit later fun p edge => ?_) (visited_or_waiting later here)
    exact absurd (mem_parents.mpr edge) (by simp [none])
  | case4 visited roots id rest fresh visited' roots' some ih =>
    rw [collectExplicit, dif_neg fresh, dif_neg some]
    have later : ∀ p ∈ rest, p ∈ (g.parents id).reverse.filter (!visited'.contains ·) ++ rest :=
      fun _ member => List.mem_append_right _ member
    refine ih (v.visit later fun p edge => ?_) (visited_or_waiting later here)
    -- Only parents that were not visited are put on the stack.
    by_cases before : visited'.contains p = true
    · exact .inl before
    · have parent : p ∈ (g.parents id).reverse := List.mem_reverse.mpr (mem_parents.mpr edge)
      exact .inr (List.mem_append_left _ (List.mem_filter.mpr ⟨parent, by simpa using before⟩))

/-- The roots of a component are the explicit components from which one comes down to it. -/
theorem contains_explicitRoots (named : id ≠ "") (here : g.contains id = true) :
    ((g.explicitRoots id).toOption.getD .empty).contains y = true ↔
      g.isExplicit y = true ∧ g.Below id y := by
  have roots : (g.explicitRoots id).toOption.getD .empty =
      g.collectExplicit [id] .empty .empty := by
    simp [explicitRoots, named, here, Except.toOption]
  rw [roots]
  constructor
  · intro found
    rcases below_of_collectExplicit found with old | ⟨explicit, x, member, below⟩
    · simp at old
    · obtain rfl := List.mem_singleton.mp member
      exact ⟨explicit, below⟩
  · rintro ⟨explicit, below⟩
    exact contains_collectExplicit (visited_empty g [id]) (.inr List.mem_cons_self) below explicit

end Inventory.Graph
