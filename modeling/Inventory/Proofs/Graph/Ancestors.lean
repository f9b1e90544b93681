import Inventory.Proofs.Graph.Search
import Mathlib.Data.List.Perm.Subperm
import Mathlib.Order.Lattice.Nat

/-! The dependents of a component as the loop lists them, nearest first. What was noted and not yet
taken from the queue has at most two distances, one after the other, and everything that is not
farther than the head of the queue was noted. So what is noted next is farther by one edge than the
head, and the list stays in order, on cycles too. -/
namespace Inventory.Graph

inductive Way (g : Graph) (id : String) : (n : Nat) → (top : String) → Prop where
  | here : Way g id 0 id
  | down {n : Nat} {top x : String} : g.HasChild top x → Way g id n x → Way g id (n + 1) top

variable {g : Graph} {id top x y p : String} {n : Nat} {noted done : List String}
  {visited : StringSet}

noncomputable def distance (g : Graph) (top id : String) : Nat := sInf {n | g.Way id n top}

theorem distance_le (way : g.Way id n top) : g.distance top id ≤ n := Nat.sInf_le way

theorem way_distance (way : g.Way id n top) : g.Way id (g.distance top id) top :=
  Nat.sInf_mem (s := {n | g.Way id n top}) ⟨n, way⟩

theorem exists_way_iff : (∃ n, g.Way id n top) ↔ Relation.ReflTransGen g.HasChild top id := by
  constructor
  · rintro ⟨n, way⟩
    induction way with
    | here => exact .refl
    | down edge _ ih => exact .head edge ih
  · intro path
    induction path using Relation.ReflTransGen.head_induction_on with
    | refl => exact ⟨0, .here⟩
    | head edge _ ih =>
      obtain ⟨n, way⟩ := ih
      exact ⟨n + 1, .down edge way⟩

/-- What the loop holds between two passes. -/
structure Walk where
  queue : List String
  visited : StringSet
  noted : List String := []

namespace Walk

def start (id : String) : Walk := ⟨[id], .ofList [id], []⟩

/-- One pass takes the head of the queue and notes its parents that were not noted. -/
def pass (g : Graph) (w : Walk) : Walk :=
  match w.queue with
  | [] => w
  | id :: rest =>
    let fresh := (g.parents id).filter (!w.visited.contains ·)
    ⟨rest ++ fresh, w.visited.addAll fresh, w.noted ++ fresh⟩

/-- There is one pass for each id that waits or is noted later; after them the queue is empty, and
what was noted is what the loop returns. -/
theorem exists_passes (g : Graph) (queue : List String) (visited : StringSet)
    (noted : List String) : ∃ n visited',
      n + noted.length = queue.length + (g.collectAncestors queue visited noted).length ∧
        (pass g)^[n] ⟨queue, visited, noted⟩ =
          ⟨[], visited', g.collectAncestors queue visited noted⟩ := by
  induction queue, visited, noted using collectAncestors.induct (g := g) with
  | case1 visited noted =>
    rw [collectAncestors]
    exact ⟨0, visited, by simp, rfl⟩
  | case2 visited noted id rest fresh ih =>
    obtain ⟨n, visited', count, run⟩ := ih
    have next : g.collectAncestors (id :: rest) visited noted =
        g.collectAncestors (rest ++ fresh) (visited.addAll fresh) (noted ++ fresh) := by
      rw [collectAncestors]
    rw [next]
    refine ⟨n + 1, visited', ?_, ?_⟩
    · rw [List.length_append, List.length_append] at count
      rw [List.length_cons]
      omega
    · rw [Function.iterate_succ_apply]
      exact run

/-- Of what was noted, `done` was taken from the queue and the rest waits there. -/
structure Ordered (g : Graph) (id : String) (done : List String) (w : Walk) : Prop where
  listed : id :: w.noted = done ++ w.queue
  nodup : (id :: w.noted).Nodup
  visited : ∀ x, w.visited.contains x = true ↔ x ∈ id :: w.noted
  leads : ∀ x ∈ id :: w.noted, ∃ n, g.Way id n x
  closed : ∀ x ∈ done, ∀ p, g.HasParent x p → p ∈ id :: w.noted
  sorted : (id :: w.noted).Pairwise fun x y => g.distance x id ≤ g.distance y id
  near : ∀ x ∈ w.queue, ∀ y ∈ w.queue, g.distance y id ≤ g.distance x id + 1

theorem ordered_start (g : Graph) (id : String) : Ordered g id [] (start id) where
  listed := rfl
  nodup := List.nodup_singleton id
  visited x := by simp [start]
  leads x member := ⟨0, List.mem_singleton.mp member ▸ .here⟩
  closed x member := absurd member List.not_mem_nil
  sorted := List.pairwise_singleton ..
  near x hx y hy := by
    rw [List.mem_singleton.mp hx, List.mem_singleton.mp hy]
    exact Nat.le_succ _

namespace Ordered

variable {head : String} {rest : List String}

theorem le_of_waiting (o : Ordered g id done ⟨head :: rest, visited, noted⟩)
    (waiting : x ∈ head :: rest) : g.distance head id ≤ g.distance x id := by
  have sorted := o.sorted
  rw [o.listed] at sorted
  rcases List.mem_cons.mp waiting with rfl | later
  · exact Nat.le_refl _
  · exact List.rel_of_pairwise_cons (List.pairwise_append.mp sorted).2.1 later

theorem le_of_noted (o : Ordered g id done ⟨head :: rest, visited, noted⟩)
    (member : x ∈ id :: noted) : g.distance x id ≤ g.distance head id + 1 := by
  have sorted := o.sorted
  rw [o.listed] at sorted
  rcases List.mem_append.mp (o.listed ▸ member) with taken | waiting
  · exact Nat.le_succ_of_le ((List.pairwise_append.mp sorted).2.2 x taken head List.mem_cons_self)
  · exact o.near head List.mem_cons_self x waiting

/-- What was not noted is farther than the head of the queue: on a way to it, what is last of what
was noted waits in the queue. -/
theorem lt_of_unnoted (consistent : g.Consistent)
    (o : Ordered g id done ⟨head :: rest, visited, noted⟩) (way : g.Way id n y)
    (fresh : y ∉ id :: noted) : g.distance head id < n := by
  induction way with
  | here => exact absurd List.mem_cons_self fresh
  | @down n top x edge way ih =>
    by_cases known : x ∈ id :: noted
    · rcases List.mem_append.mp (o.listed ▸ known) with taken | waiting
      · have parent := (consistent.child_iff_parent top x).mp edge
        exact absurd (o.closed x taken top parent) fresh
      · exact Nat.lt_succ_of_le (Nat.le_trans (o.le_of_waiting waiting) (distance_le way))
    · exact Nat.lt_succ_of_lt (ih known)

/-- A fresh parent of the head is farther than the head by one edge. -/
theorem distance_fresh (consistent : g.Consistent)
    (o : Ordered g id done ⟨head :: rest, visited, noted⟩) (edge : g.HasParent head p)
    (fresh : p ∉ id :: noted) :
    g.Way id (g.distance head id + 1) p ∧ g.distance p id = g.distance head id + 1 := by
  have member : head ∈ id :: noted := o.listed ▸ List.mem_append_right _ List.mem_cons_self
  obtain ⟨n, way⟩ := o.leads head member
  have child := (consistent.child_iff_parent p head).mpr edge
  have longer : g.Way id (g.distance head id + 1) p := .down child (way_distance way)
  exact ⟨longer, Nat.le_antisymm (distance_le longer)
    (o.lt_of_unnoted consistent (way_distance longer) fresh)⟩

/-- The facts outlast a pass that takes an id. -/
theorem take (consistent : g.Consistent)
    (o : Ordered g id done ⟨head :: rest, visited, noted⟩) :
    Ordered g id (done ++ [head]) (pass g ⟨head :: rest, visited, noted⟩) := by
  let fresh := (g.parents head).filter (!visited.contains ·)
  show Ordered g id (done ++ [head]) ⟨rest ++ fresh, visited.addAll fresh, noted ++ fresh⟩
  have mem_fresh (p : String) : p ∈ fresh ↔ g.HasParent head p ∧ p ∉ id :: noted := by
    rw [List.mem_filter, mem_parents, ← o.visited p]
    simp
  have far (p : String) (member : p ∈ fresh) :
      g.Way id (g.distance head id + 1) p ∧ g.distance p id = g.distance head id + 1 :=
    o.distance_fresh consistent ((mem_fresh p).mp member).1 ((mem_fresh p).mp member).2
  -- All that waits after the pass is as far as the head or farther by one edge.
  have between (x : String) (member : x ∈ rest ++ fresh) :
      g.distance head id ≤ g.distance x id ∧ g.distance x id ≤ g.distance head id + 1 := by
    rcases List.mem_append.mp member with old | new
    · have waiting : x ∈ head :: rest := List.mem_cons_of_mem _ old
      exact ⟨o.le_of_waiting waiting, o.near head List.mem_cons_self x waiting⟩
    · rw [(far x new).2]
      exact ⟨Nat.le_succ _, Nat.le_refl _⟩
  have all : id :: (noted ++ fresh) = (id :: noted) ++ fresh := rfl
  constructor
  case listed => simp [all, o.listed]
  case nodup =>
    have parents : (g.parents head).Nodup := by
      unfold parents parents?
      cases g.node? head with
      | none => exact List.nodup_nil
      | some n => exact n.parents.sorted_keys.imp String.ne_of_lt
    rw [all]
    exact o.nodup.append (parents.filter _) fun x old new => ((mem_fresh x).mp new).2 old
  case visited =>
    intro x
    rw [StringSet.contains_addAll, Bool.or_eq_true, o.visited x, List.contains_iff_mem, all,
      List.mem_append, or_comm]
  case leads =>
    intro x member
    rcases List.mem_append.mp (all ▸ member) with old | new
    · exact o.leads x old
    · exact ⟨_, (far x new).1⟩
  case closed =>
    intro x taken p edge
    show p ∈ (id :: noted) ++ fresh
    by_cases old : p ∈ id :: noted
    · exact List.mem_append_left _ old
    · rcases List.mem_append.mp taken with before | last
      · exact absurd (o.closed x before p edge) old
      · obtain rfl := List.mem_singleton.mp last
        exact List.mem_append_right _ ((mem_fresh p).mpr ⟨edge, old⟩)
  case sorted =>
    rw [all]
    refine List.pairwise_append.mpr ⟨o.sorted, ?_, fun x old y new => ?_⟩
    · exact List.pairwise_iff_forall_sublist.mpr fun {x y} both => by
        rw [(far x (both.subset List.mem_cons_self)).2, (far y (both.subset (by simp))).2]
    · rw [(far y new).2]
      exact o.le_of_noted old
  case near =>
    intro x hx y hy
    have low := (between x hx).1
    have high := (between y hy).2
    show g.distance y id ≤ g.distance x id + 1
    omega

theorem step (consistent : g.Consistent) {w : Walk} (o : Ordered g id done w) :
    ∃ done', Ordered g id done' (pass g w) := by
  obtain ⟨queue, visited, noted⟩ := w
  cases queue with
  | nil => exact ⟨done, o⟩
  | cons head rest => exact ⟨_, o.take consistent⟩

theorem run (consistent : g.Consistent) (id : String) (n : Nat) :
    ∃ done, Ordered g id done ((pass g)^[n] (start id)) := by
  induction n with
  | zero => exact ⟨[], ordered_start g id⟩
  | succ n ih =>
    obtain ⟨done, o⟩ := ih
    rw [Function.iterate_succ_apply']
    exact o.step consistent

/-- With nothing waiting, all that leads down to the id was noted. -/
theorem noted_of_way (consistent : g.Consistent) (o : Ordered g id done ⟨[], visited, noted⟩)
    (way : g.Way id n y) : y ∈ id :: noted := by
  induction way with
  | here => exact List.mem_cons_self
  | @down n top x edge _ ih =>
    have taken : x ∈ done := by simpa [o.listed] using ih
    exact o.closed x taken top ((consistent.child_iff_parent top x).mp edge)

theorem mem_iff (consistent : g.Consistent) (o : Ordered g id done ⟨[], visited, noted⟩) :
    x ∈ id :: noted ↔ Relation.ReflTransGen g.HasChild x id := by
  constructor
  · exact fun member => exists_way_iff.mp (o.leads x member)
  · intro path
    obtain ⟨n, way⟩ := exists_way_iff.mpr path
    exact o.noted_of_way consistent way

end Ordered

end Walk

theorem ancestors_eq (g : Graph) (id : String) :
    g.ancestors id = g.collectAncestors [id] (.ofList [id]) [] := by
  unfold ancestors
  split
  · rfl
  next absent =>
    have none : g.parents id = [] := List.eq_nil_iff_forall_not_mem.mpr fun p parent =>
      absent (SortedMap.contains_eq_true.mpr (mem_ids_of_parents parent))
    simp [collectAncestors, none]

/-- What was noted is above the id, and what does not wait any more has all its parents noted. This
needs no edge at its upper end, so it holds between two accesses of an addition too. -/
structure Walk.Upward (g : Graph) (id : String) (w : Walk) : Prop where
  visited : ∀ x, w.visited.contains x = true ↔ x ∈ id :: w.noted
  other : id ∉ w.noted
  above : ∀ x ∈ id :: w.noted, g.Below id x
  waiting : ∀ x ∈ w.queue, x ∈ id :: w.noted
  closed : ∀ x ∈ id :: w.noted, x ∈ w.queue ∨ ∀ p, g.HasParent x p → p ∈ id :: w.noted

theorem Walk.upward_start (g : Graph) (id : String) : Upward g id (start id) where
  visited x := by simp [start]
  other := List.not_mem_nil
  above x member := List.mem_singleton.mp member ▸ .refl g id
  waiting _ member := member
  closed _ member := .inl member

theorem Walk.Upward.step {w : Walk} (u : Upward g id w) : Upward g id (pass g w) := by
  obtain ⟨queue, visited, noted⟩ := w
  cases queue with
  | nil => exact u
  | cons head rest =>
    let fresh := (g.parents head).filter (!visited.contains ·)
    show Upward g id ⟨rest ++ fresh, visited.addAll fresh, noted ++ fresh⟩
    have mem_fresh (p : String) : p ∈ fresh ↔ g.HasParent head p ∧ p ∉ id :: noted := by
      rw [List.mem_filter, mem_parents, ← u.visited p]
      simp
    have all : id :: (noted ++ fresh) = (id :: noted) ++ fresh := rfl
    constructor
    case visited =>
      intro x
      rw [StringSet.contains_addAll, Bool.or_eq_true, u.visited x, List.contains_iff_mem, all,
        List.mem_append, or_comm]
    case other =>
      intro member
      rcases List.mem_append.mp member with old | new
      · exact u.other old
      · exact ((mem_fresh id).mp new).2 List.mem_cons_self
    case above =>
      intro x member
      rcases List.mem_append.mp (all ▸ member) with old | new
      · exact u.above x old
      · exact (u.above head (u.waiting head List.mem_cons_self)).tail ((mem_fresh x).mp new).1
    case waiting =>
      intro x member
      refine all ▸ List.mem_append.mpr ((List.mem_append.mp member).imp_left fun later => ?_)
      exact u.waiting x (List.mem_cons_of_mem head later)
    case closed =>
      intro x member
      rcases List.mem_append.mp (all ▸ member) with old | new
      · rcases u.closed x old with waits | done
        · rcases List.mem_cons.mp waits with rfl | later
          · refine .inr fun p edge => all ▸ List.mem_append.mpr ?_
            by_cases before : p ∈ id :: noted
            · exact .inl before
            · exact .inr ((mem_fresh p).mpr ⟨edge, before⟩)
          · exact .inl (List.mem_append_left _ later)
        · exact .inr fun p edge => all ▸ List.mem_append_left _ (done p edge)
      · exact .inl (List.mem_append_right _ new)

theorem Walk.upward_run (g : Graph) (id : String) (n : Nat) :
    Upward g id ((pass g)^[n] (start id)) := by
  induction n with
  | zero => exact upward_start g id
  | succ n ih =>
    rw [Function.iterate_succ_apply']
    exact ih.step

/-- On every graph, at whatever point of additions. -/
theorem mem_ancestors : x ∈ g.ancestors id ↔ x ≠ id ∧ g.Below id x := by
  obtain ⟨n, visited, -, run⟩ := Walk.exists_passes g [id] (.ofList [id]) []
  have u : Walk.Upward g id ⟨[], visited, g.ancestors id⟩ := by
    rw [ancestors_eq, ← run]
    exact Walk.upward_run g id n
  constructor
  · intro member
    exact ⟨fun same => u.other (same ▸ member), u.above x (List.mem_cons_of_mem id member)⟩
  · rintro ⟨other, below⟩
    have noted : x ∈ id :: g.ancestors id := by
      clear other
      induction below with
      | refl => exact List.mem_cons_self
      | tail _ edge ih => exact (u.closed _ ih).resolve_left List.not_mem_nil _ edge
    exact (List.mem_cons.mp noted).resolve_left other

theorem mem_self_or_ancestors : x ∈ id :: g.ancestors id ↔ g.Below id x := by
  rw [List.mem_cons, mem_ancestors]
  constructor
  · rintro (rfl | ⟨_, below⟩)
    · exact .refl g x
    · exact below
  · intro below
    by_cases same : x = id
    · exact .inl same
    · exact .inr ⟨same, below⟩

theorem exists_ordered (consistent : g.Consistent) (id : String) : ∃ visited,
    (Walk.pass g)^[(g.ancestors id).length + 1] (.start id) = ⟨[], visited, g.ancestors id⟩ ∧
      ∃ done, Walk.Ordered g id done ⟨[], visited, g.ancestors id⟩ := by
  obtain ⟨n, visited, count, run⟩ := Walk.exists_passes g [id] (.ofList [id]) []
  rw [← ancestors_eq] at count run
  obtain rfl : n = (g.ancestors id).length + 1 := by simpa [Nat.add_comm] using count
  have o := Walk.Ordered.run consistent id ((g.ancestors id).length + 1)
  rw [Walk.start, run] at o
  exact ⟨visited, run, o⟩

theorem contains_of_path (path : Relation.ReflTransGen g.HasChild x id) (other : x ≠ id) :
    g.contains x = true := by
  cases path.cases_head with
  | inl same => exact absurd same other
  | inr edge =>
    obtain ⟨y, child, _⟩ := edge
    exact contains_of_hasChild child

/-- Both searches find the same explicit components. -/
theorem collectExplicit_eq (consistent : g.Consistent) (named : id ≠ "")
    (here : g.contains id = true)
    (all : ∀ x, x ∈ id :: noted ↔ Relation.ReflTransGen g.HasChild x id) :
    g.collectExplicit [id] .empty .empty = .ofList ((id :: noted).filter g.isExplicit) := by
  refine StringSet.ext fun x => ?_
  have found := contains_explicitRoots (y := x) named here
  rw [explicitRoots_of_contains named here] at found
  rw [Bool.eq_iff_iff, StringSet.contains_ofList, List.contains_iff_mem, List.mem_filter, all,
    Relation.reflTransGen_iff_eq_or_transGen, @eq_comm _ id, ← consistent.below_iff, and_comm]
  exact found

/-- The ancestors of an id are listed in one pass for each of them and one more. They are the other
components that lead down to it, each once, and none of them is nearer than one before it. An id
that is not in the graph has none. The depth-first search for explicit components returns just the
explicit ones among the id and its ancestors. -/
theorem ancestors_nearest_first (manualRoots : Bool) (rule : DevelopmentRule)
    (calls : List Addition) (id : String) :
    let g := addAll { manualRoots, rule } calls
    (∃ visited, (Walk.pass g)^[(g.ancestors id).length + 1] (.start id) =
        ⟨[], visited, g.ancestors id⟩) ∧
      (g.ancestors id).length ≤ g.size ∧ (g.ancestors id).Nodup ∧
      (∀ x, x ∈ g.ancestors id ↔
        g.contains x = true ∧ x ≠ id ∧ Relation.ReflTransGen g.HasChild x id) ∧
      (g.contains id = false → g.ancestors id = []) ∧
      (g.ancestors id).Pairwise (fun x y => g.distance x id ≤ g.distance y id) ∧
      g.explicitRoots id =
        if id = "" ∨ g.contains id = false then .error (.unknownComponent id)
        else .ok (.ofList ((id :: g.ancestors id).filter g.isExplicit)) := by
  intro g
  have consistent : g.Consistent := consistent_addAll manualRoots rule calls
  obtain ⟨visited, run, done, o⟩ := exists_ordered consistent id
  have nodup := List.nodup_cons.mp o.nodup
  have members (x : String) : x ∈ g.ancestors id ↔
      g.contains x = true ∧ x ≠ id ∧ Relation.ReflTransGen g.HasChild x id := by
    constructor
    · intro member
      have other : x ≠ id := fun same => nodup.1 (same ▸ member)
      have path := (o.mem_iff consistent).mp (List.mem_cons_of_mem id member)
      exact ⟨contains_of_path path other, other, path⟩
    · rintro ⟨_, other, path⟩
      exact (List.mem_cons.mp ((o.mem_iff consistent).mpr path)).resolve_left other
  refine ⟨⟨visited, run⟩, ?_, nodup.2, members, ?_, (List.pairwise_cons.mp o.sorted).2, ?_⟩
  · have among : g.ancestors id ⊆ g.ids := fun x member =>
      SortedMap.contains_eq_true.mp ((members x).mp member).1
    have le := (List.subperm_of_subset nodup.2 among).length_le
    rwa [ids, SortedMap.keys, List.length_map] at le
  · intro absent
    simp [ancestors, absent]
  · split
    next unknown => exact explicitRoots_eq_error_iff.mpr unknown
    next known =>
      obtain ⟨named, there⟩ := not_or.mp known
      have here : g.contains id = true := by simpa using there
      rw [explicitRoots_of_contains named here,
        collectExplicit_eq consistent named here fun x => o.mem_iff consistent]

end Inventory.Graph
