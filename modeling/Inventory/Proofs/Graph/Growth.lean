import Inventory.Proofs.Component.Growth
import Inventory.Proofs.Graph.Ancestors
import Inventory.Proofs.Graph.Order

/-! What a graph is told, it keeps. No write takes anything from a node but to put something higher
in its place, so whatever was reached by edges is still reached, and as long as explicit references
are as said, the roots of a component only become more. -/
namespace Inventory.Graph

variable {g h k : Graph} {id x : String}

/-- Nothing that `g` holds is missing from `h`, and what is said of each component rises. -/
structure Grows (g h : Graph) : Prop extends Within g h where
  manualRoots : h.manualRoots = g.manualRoots
  rule : h.rule = g.rule
  marked : ∀ id, g.marked id = true → h.marked id = true
  development : ∀ id, Rises g.rule.merge (g.development? id) (h.development? id)
  scope : ∀ id, Rises Scope.merge (g.scope? id) (h.scope? id)
  relatedFiles : ∀ path, g.relatedFiles.contains path = true → h.relatedFiles.contains path = true

theorem Grows.refl (g : Graph) : Grows g g where
  toWithin := .refl g
  manualRoots := rfl
  rule := rfl
  marked _ := id
  development _ := .refl _
  scope _ := .refl _
  relatedFiles _ := id

theorem Grows.trans (first : Grows g h) (second : Grows h k) : Grows g k where
  toWithin := first.toWithin.trans second.toWithin
  manualRoots := second.manualRoots.trans first.manualRoots
  rule := second.rule.trans first.rule
  marked id := second.marked id ∘ first.marked id
  development id := (first.development id).trans (first.rule ▸ second.development id)
  scope id := (first.scope id).trans (second.scope id)
  relatedFiles path := second.relatedFiles path ∘ first.relatedFiles path

/-- Writes to edges and failures say nothing of the components. -/
theorem grows_of_bare (within : Within g h) (same : h.bare = g.bare) : Grows g h where
  toWithin := within
  manualRoots := (congrArg Graph.manualRoots same :)
  rule := (congrArg Graph.rule same :)
  marked id told := by rwa [← marked_bare, same, marked_bare]
  development id := by
    rw [← development?_bare h, same, development?_bare]
    exact .refl _
  scope id := by
    rw [← scope?_bare h, same, scope?_bare]
    exact .refl _
  relatedFiles path listed := by
    have files : h.relatedFiles = g.relatedFiles := (congrArg Graph.relatedFiles same :)
    rwa [files]

theorem grows_see (g : Graph) (s : Sighting) : Grows g (g.see s) where
  toWithin := within_see g s
  manualRoots := rfl
  rule := rfl
  marked id told := by simp [marked_see, told]
  development id := by
    rw [development?_see]
    split
    · exact rises_left ..
    · exact .refl _
  scope id := by
    rw [scope?_see]
    split
    · exact rises_left ..
    · exact .refl _
  relatedFiles _ := id

theorem grows_addFailure (g : Graph) (text : String) : Grows g (g.addFailure text) :=
  grows_of_bare (within_addFailure g text) rfl

theorem grows_addRelatedFile (g : Graph) (path : String) : Grows g (g.addRelatedFile path) where
  toWithin := ⟨fun _ => id, fun _ _ => id, fun _ _ => id, fun _ => id⟩
  manualRoots := rfl
  rule := rfl
  marked _ := id
  development _ := .refl _
  scope _ := .refl _
  relatedFiles other listed := by simp [addRelatedFile, listed]

/-- Each access of a call that adds a component. -/
theorem grows_step (g : Graph) (t : Task) : Grows g (t.step g).1 := by
  cases t with
  | see c => exact grows_see g c.sighting
  | link parent child =>
    refine grows_of_bare (within_step g _) ?_
    simp only [Task.step]
    split
    · exact bare_modify g parent fun _ => rfl
    · rfl
  | backlink parent child => exact grows_of_bare (within_addParent ..) (bare_modify g _ fun _ => rfl)
  | report => exact grows_addFailure g _
  | done => exact .refl g

/-- Whatever is added, and in whatever order its accesses come. -/
theorem grows_execute (s : Shared Graph Task) (schedule : List Nat) :
    s.state.Grows (s.execute Task.step schedule).state :=
  Shared.execute_invariant (P := fun s' => s.state.Grows s'.state)
    (fun s' _ t grows _ => grows.trans (grows_step s'.state t)) (.refl s.state) schedule

/-- Whatever is read off `g` is found in `h`, or something that settles it. -/
structure OutgrownBy (rule : DevelopmentRule) (g h : Graph) : Prop where
  ids : ∀ id ∈ g.ids, id ∈ h.ids
  children : ∀ id cs, g.children? id = some cs → ∃ cs', h.children? id = some cs' ∧
    ∀ child, cs.contains child = true → cs'.contains child = true
  parents : ∀ id ps, g.parents? id = some ps → ∃ ps', h.parents? id = some ps' ∧
    ∀ parent, ps.contains parent = true → ps'.contains parent = true
  explicitIds : ∀ id ∈ g.explicitIds, id ∈ h.explicitIds
  explicitRoots : ∀ id roots, g.explicitRoots id = .ok roots →
    ∃ roots', h.explicitRoots id = .ok roots' ∧
      ∀ root, roots.contains root = true → roots'.contains root = true
  ancestors : ∀ id, ∀ x ∈ g.ancestors id, x ∈ h.ancestors id
  development : ∀ id, rule.Settles (g.development? id) (h.development? id)
  scope : ∀ id, Scope.Climbs (g.scope? id) (h.scope? id)
  failures : ∀ text, g.failures.contains text = true → h.failures.contains text = true
  relatedFiles : ∀ path, g.relatedFiles.contains path = true → h.relatedFiles.contains path = true

namespace Grows

variable (grows : Grows g h)

include grows

theorem below (below : g.Below id x) : h.Below id x :=
  Relation.ReflTransGen.mono (fun child parent => grows.hasParent parent child) _ _ below

theorem isExplicit (manual : g.manualRoots = true) (explicit : g.isExplicit id = true) :
    h.isExplicit id = true := by
  rw [isExplicit_of_manualRoots manual] at explicit
  rw [isExplicit_of_manualRoots (grows.manualRoots.trans manual)]
  exact grows.marked id explicit

theorem roots (manual : g.manualRoots = true) {roots : StringSet}
    (found : g.explicitRoots id = .ok roots) : ∃ roots', h.explicitRoots id = .ok roots' ∧
      ∀ root, roots.contains root = true → roots'.contains root = true := by
  obtain ⟨named, here⟩ := known_of_explicitRoots found
  have found' := explicitRoots_of_contains named (grows.contains id here)
  refine ⟨_, found', fun root isRoot => ?_⟩
  obtain ⟨explicit, below⟩ := (contains_of_explicitRoots found).mp isRoot
  exact (contains_of_explicitRoots found').mpr
    ⟨grows.isExplicit manual explicit, grows.below below⟩

/-- The edges at one end of a node. -/
theorem edges {field : Node → StringSet} {xs : StringSet}
    (keeps : ∀ x, (∃ n, g.node? id = some n ∧ (field n).contains x = true) →
      ∃ n, h.node? id = some n ∧ (field n).contains x = true)
    (listed : (g.node? id).map field = some xs) : ∃ xs', (h.node? id).map field = some xs' ∧
      ∀ x, xs.contains x = true → xs'.contains x = true := by
  obtain ⟨n, here, rfl⟩ := Option.map_eq_some_iff.mp listed
  obtain ⟨m, here'⟩ := contains_iff.mp (grows.contains id (contains_iff.mpr ⟨n, here⟩))
  refine ⟨field m, by rw [here', Option.map_some], fun x member => ?_⟩
  obtain ⟨m', there, member'⟩ := keeps x ⟨n, here, member⟩
  exact Option.some.inj (here'.symm.trans there) ▸ member'

theorem outgrownBy (manual : g.manualRoots = true) : g.OutgrownBy g.rule h where
  ids id member := SortedMap.mem_keys.mpr (grows.contains id (SortedMap.mem_keys.mp member))
  children id _ := grows.edges (grows.hasChild id)
  parents id _ := grows.edges fun parent => grows.hasParent parent id
  explicitIds id member :=
    mem_explicitIds.mpr (grows.isExplicit manual (mem_explicitIds.mp member))
  explicitRoots id roots := grows.roots manual
  ancestors id x member := by
    obtain ⟨other, below⟩ := mem_ancestors.mp member
    exact mem_ancestors.mpr ⟨other, grows.below below⟩
  development id := DevelopmentRule.settles_iff.mpr (grows.development id)
  scope id := Scope.climbs_iff.mpr (grows.scope id)
  failures := grows.failures
  relatedFiles := grows.relatedFiles

end Grows

end Inventory.Graph
