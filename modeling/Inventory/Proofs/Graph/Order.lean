import Inventory.Proofs.Graph.Shared

/-! What does not depend on the order of additions. Taking up what is said of components commutes,
so apart from edges and failures every interleaving comes to the same graph. Edges do too when every
parent is there from the start, since then no call looks for its parent in vain. -/
namespace Inventory.Graph

variable {g h g₀ : Graph} {calls : List Addition} {s : Shared Graph Task}

theorem ext_node? (nodes : ∀ id, g.node? id = h.node? id) (failures : g.failures = h.failures)
    (relatedFiles : g.relatedFiles = h.relatedFiles) (manualRoots : g.manualRoots = h.manualRoots)
    (rule : g.rule = h.rule) : g = h := by
  have nodes : g.nodes = h.nodes := SortedMap.ext_get? nodes
  cases g
  cases h
  simp_all

def bareNode (n : Node) : Node := { n with parents := .empty, children := .empty }

def bare (g : Graph) : Graph := { g with nodes := g.nodes.map bareNode, failures := .empty }

theorem node?_bare (g : Graph) (id : String) : g.bare.node? id = (g.node? id).map bareNode :=
  SortedMap.get?_map ..

def marked (g : Graph) (id : String) : Bool := (g.node? id).any (·.explicit)

theorem isExplicit_of_manualRoots (manual : g.manualRoots = true) (id : String) :
    g.isExplicit id = g.marked id := by
  rw [isExplicit, marked, manual]
  cases g.node? id <;> rfl

@[simp] theorem contains_bare (g : Graph) (id : String) : g.bare.contains id = g.contains id := by
  rw [contains, contains, SortedMap.contains_eq_isSome, SortedMap.contains_eq_isSome,
    show g.bare.nodes.get? id = _ from node?_bare g id, Option.isSome_map]
  rfl

@[simp] theorem marked_bare (g : Graph) (id : String) : g.bare.marked id = g.marked id := by
  rw [marked, marked, node?_bare]
  cases g.node? id <;> rfl

@[simp] theorem development?_bare (g : Graph) (id : String) :
    g.bare.development? id = g.development? id := by
  rw [development?, development?, node?_bare]
  cases g.node? id <;> rfl

@[simp] theorem scope?_bare (g : Graph) (id : String) : g.bare.scope? id = g.scope? id := by
  rw [scope?, scope?, node?_bare]
  cases g.node? id <;> rfl

theorem bare_see (g : Graph) (s : Sighting) : (g.see s).bare = g.bare.see s := by
  refine ext_node? (fun id => ?_) rfl rfl rfl rfl
  rw [node?_bare, node?_see, node?_see, node?_bare, node?_bare]
  by_cases same : s.id = id
  · subst same
    cases g.node? s.id <;> simp [Node.see, bareNode, bare]
  · simp [same]

/-- Writes to the edges of a node are not seen. -/
theorem bare_modify (g : Graph) (id : String) {f : Node → Node}
    (same : ∀ n, bareNode (f n) = bareNode n) :
    bare { g with nodes := g.nodes.modify id f } = g.bare := by
  refine ext_node? (fun key => ?_) rfl rfl rfl rfl
  rw [node?_bare, node?_bare, node?, SortedMap.get?_modify]
  split
  · rw [Option.map_map, show bareNode ∘ f = bareNode from funext same]
    rfl
  · rfl

/-- A graph is given by what is said of its nodes, its edges and its failures. -/
theorem eq_of_bare (same : g.bare = h.bare) (children : ∀ a b, g.HasChild a b ↔ h.HasChild a b)
    (parents : ∀ a b, g.HasParent b a ↔ h.HasParent b a) (failures : g.failures = h.failures) :
    g = h := by
  refine ext_node? (fun id => ?_) failures (congrArg relatedFiles same :)
    (congrArg manualRoots same :) (congrArg rule same :)
  have said : (g.node? id).map bareNode = (h.node? id).map bareNode := by
    rw [← node?_bare, ← node?_bare, same]
  have down (b : String) := children id b
  have up (a : String) := parents a id
  unfold HasChild at down
  unfold HasParent at up
  cases here : g.node? id with
  | none => cases there : h.node? id <;> simp_all
  | some m => cases there : h.node? id with
    | none => simp_all
    | some n =>
      simp only [here, there, Option.some.injEq, exists_eq_left', Option.map_some] at said down up
      have fields := Node.mk.inj said
      refine congrArg some (node_ext (fun a => ?_) (fun b => ?_) fields.2.2.1 fields.2.2.2.1
        fields.2.2.2.2)
      · exact Bool.eq_iff_iff.mpr (up a)
      · exact Bool.eq_iff_iff.mpr (down b)

def Task.says? : Task → Option Sighting
  | .see c => some c.sighting
  | _ => none

theorem bare_step (g : Graph) (t : Task) :
    (t.step g).1.bare = t.says?.elim g.bare g.bare.see := by
  cases t with
  | see c => exact bare_see ..
  | link parent child =>
    simp only [Task.step]
    split
    · exact bare_modify g _ fun _ => rfl
    · rfl
  | backlink => exact bare_modify g _ fun _ => rfl
  | report => rfl
  | done => rfl

theorem says_step (g : Graph) (t : Task) : (t.step g).2.says? = none := by
  cases t with
  | see c =>
    simp only [Task.step, Task.afterSee]
    split
    · rfl
    · split <;> rfl
  | link =>
    simp only [Task.step]
    split <;> rfl
  | _ => rfl

theorem see_right_comm (g : Graph) (s t : Sighting) : (g.see s).see t = (g.see t).see s := by
  refine ext_node? (fun id => ?_) rfl rfl rfl rfl
  simp only [node?_see]
  have rules : (g.see s).rule = g.rule ∧ (g.see t).rule = g.rule := ⟨rfl, rfl⟩
  by_cases same : s.id = t.id
  · by_cases here : t.id = id
    · simp [same, here, rules, Node.see, Bool.or_right_comm, Scope.merge_right_comm,
        DevelopmentRule.merge_right_comm]
    · simp [same, here]
  · by_cases here : t.id = id
    · subst here
      simp [same, rules]
    · simp [here, rules, Ne.symm same]

theorem foldl_see_perm (g : Graph) {l m : List Sighting} (perm : l.Perm m) :
    l.foldl see g = m.foldl see g :=
  perm.foldl_eq' (fun _ _ _ _ g => see_right_comm g ..) g

theorem says_of_finished (last : finished s.tasks = true) : s.tasks.filterMap Task.says? = [] := by
  refine List.filterMap_eq_nil_iff.mpr fun t member => ?_
  rw [eq_done_of_finished last t member]
  rfl

theorem marked_see (g : Graph) (s : Sighting) (id : String) :
    (g.see s).marked id = (g.marked id || (s.id == id && s.explicit)) := by
  rw [marked, marked, node?_see]
  by_cases same : s.id = id
  · subst same
    cases g.node? s.id <;> simp [Node.see]
  · simp [same]

theorem development?_see (g : Graph) (s : Sighting) (id : String) : (g.see s).development? id =
    if s.id = id then g.rule.merge (g.development? id) s.development else g.development? id := by
  rw [development?, development?, node?_see]
  by_cases same : s.id = id
  · subst same
    cases g.node? s.id <;> simp [Node.see]
  · simp [same]

theorem scope?_see (g : Graph) (s : Sighting) (id : String) : (g.see s).scope? id =
    if s.id = id then Scope.merge (g.scope? id) s.scope else g.scope? id := by
  rw [scope?, scope?, node?_see]
  by_cases same : s.id = id
  · subst same
    cases g.node? s.id <;> simp [Node.see]
  · simp [same]

section Said

variable (g : Graph) (said : List Sighting) (id : String)

theorem contains_foldl_see : (said.foldl see g).contains id =
    (g.contains id || said.any (·.id == id)) := by
  induction said generalizing g with
  | nil => simp
  | cons s said ih => simp [ih, Bool.or_assoc, Bool.or_left_comm]

theorem marked_foldl_see : (said.foldl see g).marked id =
    (g.marked id || said.any fun s => s.id == id && s.explicit) := by
  induction said generalizing g with
  | nil => simp
  | cons s said ih => rw [List.foldl_cons, ih, marked_see, List.any_cons, Bool.or_assoc]

theorem development?_foldl_see : (said.foldl see g).development? id = g.rule.effective
    (g.development? id :: (said.filter (·.id == id)).map (·.development)) := by
  rw [DevelopmentRule.effective, List.foldl_cons, DevelopmentRule.merge_none]
  induction said generalizing g with
  | nil => rfl
  | cons s said ih =>
    rw [List.foldl_cons, ih, development?_see, show (g.see s).rule = g.rule from rfl]
    by_cases same : s.id = id <;> simp [same]

theorem scope?_foldl_see {scope : Scope} : (said.foldl see g).scope? id = some scope ↔
    Scope.Highest (g.scope? id :: (said.filter (·.id == id)).map (·.scope)) scope := by
  rw [← Scope.foldl_merge_eq_some_iff]
  induction said generalizing g with
  | nil => rfl
  | cons s said ih =>
    rw [List.foldl_cons, ih, scope?_see]
    by_cases same : s.id = id <;> simp [same]

end Said

/-- Whatever the interleaving, what is said comes to the same. -/
theorem bare_of_finished {schedule : List Nat}
    (last : finished ((calling g calls).execute Task.step schedule).tasks = true) :
    ((calling g calls).execute Task.step schedule).state.bare =
      (calls.map (·.sighting)).foldl see g.bare := by
  obtain ⟨said, perm, graph⟩ := Shared.execute_log says_step bare_step (calling g calls) schedule
  have start : (calling g calls).tasks.filterMap Task.says? = calls.map (·.sighting) := by
    simp [calling, List.filterMap_map, Function.comp_def, Task.says?]
  rw [says_of_finished last, List.append_nil, start] at perm
  rw [graph]
  exact foldl_see_perm _ perm

def ParentsIn (g : Graph) (calls : List Addition) : Prop :=
  ∀ c ∈ calls, ∀ parent, c.parent = some parent → g.contains parent = true

theorem Progress.settled (progress : Progress g₀ calls s) (last : finished s.tasks = true)
    (known : ParentsIn g₀ calls) {c : Addition} (member : c ∈ calls) {a b : String}
    (asks : c.Asks a b) : s.state.HasChild a b ∧ s.state.HasParent b a := by
  obtain ⟨i, bound, rfl⟩ := List.mem_iff_getElem.mp member
  have inside : i < s.tasks.length := progress.length.symm ▸ bound
  have done : s.tasks[i]? = some .done := by
    have done := eq_done_of_finished last _ (List.getElem_mem inside)
    rw [List.getElem?_eq_getElem inside, done]
  cases progress.reached i _ _ (List.getElem?_eq_getElem bound) done with
  | done _ settled =>
    refine (settled a b asks).resolve_right fun failed => ?_
    exact absurd (known _ member a asks.1) (by simp [failed.1])

theorem hasChild_of_finished (progress : Progress g₀ calls s) (last : finished s.tasks = true)
    (known : ParentsIn g₀ calls) (a b : String) :
    s.state.HasChild a b ↔ g₀.HasChild a b ∨ ∃ c ∈ calls, c.Asks a b := by
  refine ⟨progress.children a b, ?_⟩
  rintro (old | ⟨c, member, asks⟩)
  · exact progress.within.hasChild a b old
  · exact (progress.settled last known member asks).1

theorem hasParent_of_finished (progress : Progress g₀ calls s) (last : finished s.tasks = true)
    (known : ParentsIn g₀ calls) (a b : String) :
    s.state.HasParent b a ↔ g₀.HasParent b a ∨ ∃ c ∈ calls, c.Asks a b := by
  refine ⟨progress.parents a b, ?_⟩
  rintro (old | ⟨c, member, asks⟩)
  · exact progress.within.hasParent a b old
  · exact (progress.settled last known member asks).2

theorem failures_of_known (progress : Progress g₀ calls s) (known : ParentsIn g₀ calls) :
    s.state.failures = g₀.failures := by
  refine StringSet.ext fun text => Bool.eq_iff_iff.mpr ⟨fun failed => ?_, ?_⟩
  · rcases progress.failures text failed with old | ⟨c, member, a, b, asks, absent, _⟩
    · exact old
    · exact absurd (known c member a asks.1) (by simp [absent])
  · exact progress.within.failures text

end Inventory.Graph
