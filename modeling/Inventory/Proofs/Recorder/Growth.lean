import Inventory.Proofs.Graph.Growth
import Inventory.Proofs.Recorder.Flattening

/-! Recorders that are still being written to. What could be read off one at some point of a run can
be read off it at every later point: each single access to a manifest lets its recorder grow, and
what is derived from all manifests grows with them. -/
namespace Inventory

open FileRecorder (Registration)

namespace FileRecorder

variable {f g h : FileRecorder} {id location : String} {d o : Detected} {c : Component}

/-- The graph grows, and of what is stored only the target frameworks change, and become more. -/
structure Grows (f g : FileRecorder) : Prop where
  graph : f.graph.Grows g.graph
  stored : ∀ id d, f.components.get? id = some d →
    ∃ frameworks, g.components.get? id = some { d with frameworks } ∧
      ∀ name, d.frameworks.contains name = true → frameworks.contains name = true

theorem Grows.refl (f : FileRecorder) : Grows f f where
  graph := .refl f.graph
  stored _ d stored := ⟨d.frameworks, stored, fun _ => id⟩

theorem Grows.trans (first : Grows f g) (second : Grows g h) : Grows f h where
  graph := first.graph.trans second.graph
  stored id d stored := by
    obtain ⟨between, stored', more⟩ := first.stored id d stored
    obtain ⟨frameworks, stored'', further⟩ := second.stored id _ stored'
    exact ⟨frameworks, stored'', fun name => further name ∘ more name⟩

theorem grows_withGraph {graph : Graph} (grows : f.graph.Grows graph) :
    f.Grows { f with graph := graph } where
  graph := grows
  stored := (Grows.refl f).stored

theorem grows_store (f : FileRecorder) (d : Detected) (framework : Option String) :
    f.Grows (f.store d framework) where
  graph := .refl f.graph
  stored id e stored := by
    simp only [store, SortedMap.get?_upsert]
    split
    next same =>
      subst same
      rw [stored, Option.getD_some]
      refine ⟨_, rfl, fun name known => ?_⟩
      simp [StringSet.contains_addAll, known]
    next => exact ⟨e.frameworks, stored, fun _ known => known⟩

/-- Each access of a registration. -/
theorem grows_step (f : FileRecorder) (t : Task) : f.Grows (t.step f).1 := by
  cases t with
  | store c => exact grows_store f c.detected c.usage.framework
  | add rest => exact grows_withGraph (Graph.grows_step f.graph rest)

theorem grows_execute (s : Shared FileRecorder Task) (schedule : List Nat) :
    s.state.Grows (s.execute Task.step schedule).state :=
  Shared.execute_invariant (P := fun s' => s.state.Grows s'.state)
    (fun s' _ t grows _ => grows.trans (grows_step s'.state t)) (.refl s.state) schedule

theorem grows_register (f : FileRecorder) (d : Detected) (u : Usage) : f.Grows (f.register d u) := by
  obtain ⟨schedule, state, _⟩ := exists_in_turn f [⟨d, u⟩]
  change _ = f.register d u at state
  exact state ▸ grows_execute (f.registering [⟨d, u⟩]) schedule

structure OutgrownBy (rule : DevelopmentRule) (f g : FileRecorder) : Prop where
  graph : f.graph.OutgrownBy rule g.graph
  component : ∀ id c, f.component? id = some c → g.component? id = some c
  frameworks : ∀ id name, f.hasFramework id name = true → g.hasFramework id name = true

namespace Grows

variable (grows : f.Grows g)

include grows

theorem component (stored : f.component? id = some c) : g.component? id = some c := by
  obtain ⟨d, there, rfl⟩ := Option.map_eq_some_iff.mp stored
  obtain ⟨frameworks, there', _⟩ := grows.stored id d there
  exact Option.map_eq_some_iff.mpr ⟨_, there', rfl⟩

theorem hasFramework {name : String} (known : f.hasFramework id name = true) :
    g.hasFramework id name = true := by
  rw [FileRecorder.hasFramework, FileRecorder.frameworks, SortedMap.get?_map] at known ⊢
  cases there : f.components.get? id with
  | none => simp [there] at known
  | some d =>
    obtain ⟨frameworks, there', more⟩ := grows.stored id d there
    rw [there] at known
    rw [there']
    exact more name known

theorem outgrownBy (manual : f.graph.manualRoots = true) : f.OutgrownBy f.graph.rule g where
  graph := grows.graph.outgrownBy manual
  component _ _ := grows.component
  frameworks _ _ := grows.hasFramework

/-- The roots of a component that are stored themselves. -/
theorem roots (manual : f.graph.manualRoots = true)
    (member : c ∈ (((f.graph.explicitRoots id).toOption.getD .empty).toList.filterMap
      f.component?)) :
    c ∈ ((g.graph.explicitRoots id).toOption.getD .empty).toList.filterMap g.component? := by
  obtain ⟨root, isRoot, stored⟩ := List.mem_filterMap.mp member
  refine List.mem_filterMap.mpr ⟨root, ?_, grows.component stored⟩
  rw [StringSet.mem_toList] at isRoot ⊢
  cases found : f.graph.explicitRoots id with
  | error => simp [found, Except.toOption] at isRoot
  | ok roots =>
    obtain ⟨roots', found', more⟩ := grows.graph.roots manual found
    rw [found] at isRoot
    rw [found']
    exact more root isRoot

theorem observe (manual : f.graph.manualRoots = true) (location : String) (d : Detected)
    {frameworks : StringSet}
    (more : ∀ name, d.frameworks.contains name = true → frameworks.contains name = true) :
    (f.observe location d).OutgrownBy f.graph.rule
      (g.observe location { d with frameworks }) where
  id := rfl
  filePaths path := by
    rw [contains_filePaths_observe, contains_filePaths_observe]
    exact Or.imp_right (Or.imp_right (grows.graph.relatedFiles path))
  roots root := by
    simp only [FileRecorder.observe, ComponentSet.containsId_insertAll, Bool.or_eq_true,
      List.any_eq_true]
    rintro (own | ⟨c, member, same⟩)
    · exact .inl own
    · exact .inr ⟨c, grows.roots manual member, same⟩
  frameworks := more
  explicit := grows.graph.isExplicit manual
  development := DevelopmentRule.settles_iff.mpr (grows.graph.development d.id)
  scope := Scope.climbs_iff.mpr (grows.graph.scope d.id)

theorem observations (manual : f.graph.manualRoots = true) (member : o ∈ f.observations location) :
    ∃ o' ∈ g.observations location, o.OutgrownBy f.graph.rule o' := by
  simp only [FileRecorder.observations, List.mem_map, List.mem_filter, SortedMap.mem_values]
    at member ⊢
  obtain ⟨d, ⟨⟨key, stored⟩, here⟩, rfl⟩ := member
  obtain ⟨frameworks, stored', more⟩ := grows.stored key d stored
  exact ⟨_, ⟨_, ⟨⟨key, stored'⟩, grows.graph.contains d.id here⟩, rfl⟩,
    grows.observe manual location d more⟩

end Grows

end FileRecorder

namespace Recorder

/-- A whole call, or several that have come to their end together; or a single access of a
registration that is under way in some manifest, whichever it is. -/
inductive Moves : Recorder → Recorder → Prop where
  | call {log : Log} : Writes r log r' → Moves r r'
  | access (location : String) (f : FileRecorder) (t : FileRecorder.Task) :
      r.files.get? location = some f → Moves r (r.put location (t.step f).1)

variable {r r' s t : Recorder} {location : String}

structure Grows (r r' : Recorder) : Prop where
  manualRoots : r'.manualRoots = r.manualRoots
  rule : r'.rule = r.rule
  present : ∀ key, r.files.contains key = true → r'.files.contains key = true
  files : ∀ key, (r.fileAt key).Grows (r'.fileAt key)

theorem Grows.refl (r : Recorder) : Grows r r where
  manualRoots := rfl
  rule := rfl
  present _ := id
  files _ := .refl _

theorem Grows.trans (first : Grows r s) (second : Grows s t) : Grows r t where
  manualRoots := second.manualRoots.trans first.manualRoots
  rule := second.rule.trans first.rule
  present key := second.present key ∘ first.present key
  files key := (first.files key).trans (second.files key)

theorem Grows.file {f : FileRecorder} (grows : Grows s t)
    (there : s.files.get? location = some f) :
    ∃ g, t.files.get? location = some g ∧ f.Grows g := by
  obtain ⟨g, there'⟩ := SortedMap.contains_iff.mp
    (grows.present location (SortedMap.contains_iff.mpr ⟨f, there⟩))
  have within := grows.files location
  rw [fileAt_of_get? there, fileAt_of_get? there'] at within
  exact ⟨g, there', within⟩

theorem grows_write {g : FileRecorder → FileRecorder} (keeps : ∀ f : FileRecorder, f.Grows (g f))
    (written : r.write location g = .ok r') : Grows r r' where
  manualRoots := by
    unfold write create at written
    split at written <;> cases written
    rfl
  rule := (fileAt_write written location).1
  present key here := by
    unfold write create at written
    split at written <;> cases written
    simp [SortedMap.insertNew, here]
  files key := by
    rw [(fileAt_write written key).2]
    split
    next same => exact same ▸ keeps _
    next => exact .refl _

/-- To have a place for a manifest is to write nothing to it. -/
theorem write_id (r : Recorder) (location : String) : r.write location id = r.create location := by
  unfold write
  cases created : r.create location with
  | error e => rfl
  | ok r' =>
    have same : r'.files.modify location id = r'.files := SortedMap.ext_get? fun key => by
      rw [SortedMap.get?_modify, Option.map_id, id, ite_self]
    simp only [bind, Except.bind, pure, Except.pure, same]

theorem grows_put {f g : FileRecorder} (there : r.files.get? location = some f)
    (grows : f.Grows g) : Grows r (r.put location g) where
  manualRoots := rfl
  rule := rfl
  present key here := by simp [put, SortedMap.insert, here]
  files key := by
    rw [(fileAt_put r location g key).2]
    split
    next same => exact same ▸ fileAt_of_get? there ▸ grows
    next => exact .refl _

theorem Moves.grows (moves : Moves r r') : Grows r r' := by
  cases moves with
  | call writes =>
    cases writes with
    | create location created =>
      exact grows_write (g := id) (fun f => .refl f) ((r.write_id location).trans created)
    | register _ d u written => exact grows_write (·.grows_register d u) written
    | addFailure _ text written =>
      exact grows_write (fun f => FileRecorder.grows_withGraph (f.graph.grows_addFailure text)) written
    | addRelatedFile _ path written =>
      exact grows_write (fun f => FileRecorder.grows_withGraph (f.graph.grows_addRelatedFile path))
        written
    | together _ f calls schedule there _ =>
      exact grows_put there (FileRecorder.grows_execute (f.registering calls) schedule)
  | access _ f t there => exact grows_put there (f.grows_step t)

theorem grows_of_moves (run : Relation.ReflTransGen Moves s t) : Grows s t := by
  induction run with
  | refl => exact .refl s
  | tail _ moves ih => exact ih.trans moves.grows

structure OutgrownBy (rule : DevelopmentRule) (r r' : Recorder) : Prop where
  files : ∀ location f, r.files.get? location = some f →
    ∃ g, r'.files.get? location = some g ∧ f.OutgrownBy rule g
  detected : ∀ c ∈ r.detected, ∃ d ∈ r'.detected, c.OutgrownBy rule d

/-- At any two points of any run on a new recorder that tracks roots by hand. What was registered,
and all that follows from it in one manifest or in all of them, is there at the later point too. -/
theorem knowledge_grows (rule : DevelopmentRule)
    (reached : Relation.ReflTransGen Moves { manualRoots := true, rule } s)
    (later : Relation.ReflTransGen Moves s t) : s.OutgrownBy rule t := by
  have before := grows_of_moves reached
  have after := grows_of_moves later
  -- The recorder of a manifest began as a new one, which settled its mode and its rule.
  have begun (location : String) (f : FileRecorder) (there : s.files.get? location = some f) :
      f.graph.manualRoots = true ∧ f.graph.rule = rule := by
    have grows := (before.files location).graph
    rw [fileAt_of_get? there] at grows
    exact ⟨grows.manualRoots, grows.rule⟩
  constructor
  case files =>
    intro location f there
    obtain ⟨manual, rfl⟩ := begun location f there
    obtain ⟨g, there', grows⟩ := after.file there
    exact ⟨g, there', grows.outgrownBy manual⟩
  case detected =>
    intro c member
    have merges : s.rule = rule ∧ t.rule = rule :=
      ⟨before.rule, after.rule.trans before.rule⟩
    rw [Recorder.detected, merges.1] at member
    rw [Recorder.detected, merges.2]
    refine Detected.mergeAll_outgrownBy (fun o observed => ?_) member
    obtain ⟨location, f, there, here⟩ := mem_observations_flatMap.mp observed
    obtain ⟨manual, same⟩ := begun location f there
    obtain ⟨g, there', grows⟩ := after.file there
    obtain ⟨o', here', outgrown⟩ := grows.observations manual here
    exact ⟨o', mem_observations_flatMap.mpr ⟨location, g, there', here'⟩, same ▸ outgrown⟩

/-- The application is explicit before the library is registered, so it is afterwards. -/
theorem knowledge_grows_below_root : ∃ r r' : Recorder,
    Relation.ReflTransGen Moves {} r ∧ Relation.ReflTransGen Moves r r' ∧ r'.AppWithLib ∧
      r.OutgrownBy .productionWins r' ∧
      ∃ d ∈ r'.detected, d.id = (Component.npm "app" "1" none).id ∧ d.explicit = true := by
  obtain ⟨r', r, app, lib⟩ := exists_appWithLib
  have reached : Relation.ReflTransGen Moves {} r := .single (.call (.register _ _ _ app))
  have later : Relation.ReflTransGen Moves r r' := .single (.call (.register _ _ _ lib))
  have outgrown := knowledge_grows .productionWins reached later
  have filled : Filled (fun _ => True) r := .register (.new true .productionWins) trivial app
  have sound := filled.sound fun _ _ _ => trivial
  let f : FileRecorder :=
    (newFile {}).register { component := .npm "app" "1" none } { explicit := true }
  have file : r.files.get? "/src/package.json" = some f := get?_write app
  have explicit : f.graph.isExplicit (Component.npm "app" "1" none).id = true := by decide
  obtain ⟨c, member, id⟩ := (exists_mem_detected_iff sound).mpr
    ⟨_, _, file, Graph.contains_of_isExplicit explicit⟩
  obtain ⟨d, member', grown⟩ := outgrown.detected c member
  have told := (explicit_of_mem_detected sound member).mpr ⟨_, _, file, id ▸ explicit⟩
  exact ⟨r, r', reached, later, ⟨r, app, lib⟩, outgrown, d, member', grown.id.trans id,
    grown.explicit told⟩

end Recorder

end Inventory
