import Inventory.Proofs.Recorder.Order

/-! Recorders as detectors fill them. Whatever was written in whatever order, the graph of a
manifest is consistent and has the ids that are stored, each under its own name. -/
namespace Inventory

variable {admits : Detected → Prop}

namespace FileRecorder

def Keyed (admits : Detected → Prop) (f : FileRecorder) : Prop :=
  ∀ id d, f.components.get? id = some d → d.id = id ∧ admits d

structure Sound (admits : Detected → Prop) (f : FileRecorder) : Prop where
  consistent : f.graph.Consistent
  stored : ∀ id, f.components.contains id = f.graph.contains id
  keyed : f.Keyed admits

variable {f : FileRecorder} {calls : List Registration} {schedule : List Nat}
  (steady : ∀ d frameworks, admits d → admits { d with frameworks })

theorem sound_empty (manualRoots : Bool) (rule : DevelopmentRule) :
    Sound admits { graph := { manualRoots, rule } } where
  consistent := Graph.consistent_empty manualRoots rule
  stored _ := rfl
  keyed _ _ found := nomatch found

/-- What is written beside the nodes does not matter. -/
theorem Sound.withGraph {g : Graph} (sound : f.Sound admits) (nodes : g.nodes = f.graph.nodes) :
    Sound admits { f with graph := g } := by
  obtain ⟨child_iff_parent, closed, irreflexive⟩ := sound.consistent
  have stored := sound.stored
  cases g
  cases nodes
  exact ⟨⟨child_iff_parent, closed, irreflexive⟩, stored, sound.keyed⟩

include steady in
theorem Keyed.store {d : Detected} (keyed : f.Keyed admits) (admitted : admits d)
    (framework : Option String) : (f.store d framework).Keyed admits := by
  intro id x found
  simp only [FileRecorder.store, SortedMap.get?_upsert] at found
  by_cases same : d.id = id
  · rw [if_pos same] at found
    obtain rfl := Option.some.inj found
    cases old : f.components.get? d.id with
    | none => exact ⟨same, steady _ _ admitted⟩
    | some first => exact ⟨(keyed _ _ old).1.trans same, steady _ _ (keyed _ _ old).2⟩
  · rw [if_neg same] at found
    exact keyed id x found

include steady in
/-- Nothing is stored under the id of another, however far the calls are. -/
theorem Keyed.execute (keyed : f.Keyed admits) (admitted : ∀ c ∈ calls, admits c.detected)
    (schedule : List Nat) :
    ((f.registering calls).execute Task.step schedule).state.Keyed admits := by
  have start : ∀ c : Registration, Task.store c ∈ (f.registering calls).tasks →
      admits c.detected := by
    intro c member
    obtain ⟨d, among, same⟩ := List.mem_map.mp member
    exact Task.store.inj same ▸ admitted d among
  refine (Shared.execute_invariant (P := fun s : Shared FileRecorder Task =>
    s.state.Keyed admits ∧ ∀ c : Registration, Task.store c ∈ s.tasks → admits c.detected)
    ?_ ⟨keyed, start⟩ schedule).1
  rintro s i t ⟨keyed, waiting⟩ task
  have here : t ∈ s.tasks := List.mem_of_getElem? task
  refine ⟨?_, fun c member => ?_⟩
  · cases t with
    | store c => exact keyed.store steady (waiting c here) c.usage.framework
    | add rest => exact keyed
  · rcases List.mem_or_eq_of_mem_set member with old | new
    · exact waiting c old
    · cases t <;> cases new

include steady in
theorem Sound.together (sound : f.Sound admits) (admitted : ∀ c ∈ calls, admits c.detected)
    (last : finished ((f.registering calls).execute Task.step schedule).tasks = true) :
    ((f.registering calls).execute Task.step schedule).state.Sound admits where
  consistent := by
    obtain ⟨schedule', state, done⟩ := graph_of_finished last
    have valid := (Graph.execute_both (Graph.start_progress f.graph (calls.map (·.addition)))
      (Graph.start_invariant sound.consistent _) schedule').2
    exact state ▸ valid.consistent (Graph.quiet_of_finished done)
  stored id := by
    have registered := registered_of_finished last
    rw [registered.stored, registered.ids, sound.stored]
  keyed := sound.keyed.execute steady admitted schedule

include steady in
theorem Sound.register {d : Detected} (sound : f.Sound admits) (admitted : admits d) (u : Usage) :
    (f.register d u).Sound admits := by
  obtain ⟨schedule, state, done⟩ := exists_in_turn f [⟨d, u⟩]
  change _ = f.register d u at state
  have all : ∀ c ∈ [Registration.mk d u], admits c.detected := by simpa using admitted
  exact state ▸ sound.together steady all done

end FileRecorder

namespace Recorder

/-- Recorders that come from writes to a new one. Any number of registrations in one manifest may be
made at once. What is registered is one of those that `admits` allows. -/
inductive Filled (admits : Detected → Prop) : Recorder → Prop where
  | new (manualRoots : Bool) (rule : DevelopmentRule) : Filled admits { manualRoots, rule }
  | create : Filled admits r → r.create location = .ok r' → Filled admits r'
  | register : Filled admits r → admits d → r.register location d u = .ok r' → Filled admits r'
  | addFailure : Filled admits r → r.addFailure location text = .ok r' → Filled admits r'
  | addRelatedFile : Filled admits r → r.addRelatedFile location path = .ok r' → Filled admits r'
  | together : Filled admits r → r.files.get? location = some f →
      (∀ c ∈ calls, admits c.detected) →
      FileRecorder.finished ((f.registering calls).execute FileRecorder.Task.step schedule).tasks →
      Filled admits
        (r.put location ((f.registering calls).execute FileRecorder.Task.step schedule).state)

variable {r r' : Recorder} {location : String}

theorem forall_create {P : FileRecorder → Prop}
    (new : ∀ manualRoots rule, P { graph := { manualRoots, rule } })
    (all : ∀ key f, r.files.get? key = some f → P f) (created : r.create location = .ok r') :
    ∀ key f, r'.files.get? key = some f → P f := by
  unfold create at created
  split at created
  · cases created
  · cases created
    intro key f found
    rw [SortedMap.get?_insertNew] at found
    by_cases same : location = key
    · rw [if_pos same] at found
      obtain rfl := Option.some.inj found
      cases old : r.files.get? location with
      | none => exact new _ _
      | some f => exact all _ f old
    · rw [if_neg same] at found
      exact all key f found

theorem forall_write {P : FileRecorder → Prop} {g : FileRecorder → FileRecorder}
    (new : ∀ manualRoots rule, P { graph := { manualRoots, rule } }) (keep : ∀ f, P f → P (g f))
    (all : ∀ key f, r.files.get? key = some f → P f) (written : r.write location g = .ok r') :
    ∀ key f, r'.files.get? key = some f → P f := by
  unfold write at written
  cases created : r.create location with
  | error e => simp [created, bind, Except.bind] at written
  | ok r₁ =>
    have whole := forall_create new all created
    simp only [created, bind, Except.bind, pure, Except.pure, Except.ok.injEq] at written
    subst written
    intro key f found
    rw [SortedMap.get?_modify] at found
    split at found
    · obtain ⟨old, here, rfl⟩ := Option.map_eq_some_iff.mp found
      exact keep old (whole key old here)
    · exact whole key f found

theorem get?_write {g : FileRecorder → FileRecorder} (written : r.write location g = .ok r') :
    r'.files.get? location = some (g ((r.files.get? location).getD r.newFile)) := by
  unfold write create at written
  split at written
  · cases written
  · cases written
    simp [SortedMap.get?_modify, SortedMap.get?_insertNew]

/-- The recorder of each manifest is sound. -/
theorem Filled.sound (steady : ∀ d frameworks, admits d → admits { d with frameworks })
    (filled : Filled admits r) : ∀ key f, r.files.get? key = some f → f.Sound admits := by
  induction filled with
  | new manualRoots rule => exact fun _ _ found => nomatch found
  | create _ created ih => exact forall_create FileRecorder.sound_empty ih created
  | register _ admitted written ih =>
    exact forall_write FileRecorder.sound_empty
      (fun _ sound => sound.register steady admitted _) ih written
  | @addFailure _ _ text _ _ written ih =>
    have keep (f : FileRecorder) (sound : f.Sound admits) : (f.addFailure text).Sound admits :=
      sound.withGraph rfl
    exact forall_write FileRecorder.sound_empty keep ih written
  | @addRelatedFile _ _ path _ _ written ih =>
    have keep (f : FileRecorder) (sound : f.Sound admits) : (f.addRelatedFile path).Sound admits :=
      sound.withGraph rfl
    exact forall_write FileRecorder.sound_empty keep ih written
  | @together r location _ _ _ _ there admitted last ih =>
    intro key f found
    rw [put, SortedMap.get?_insert] at found
    split at found
    · obtain rfl := Option.some.inj found
      exact (ih location _ there).together steady admitted last
    · exact ih key f found

end Recorder

def Detected.Plain (d : Detected) : Prop := d.roots = .empty ∧ d.filePaths = .empty

theorem plain_steady (d : Detected) (frameworks : StringSet) (plain : d.Plain) :
    Detected.Plain { d with frameworks } := plain

namespace Recorder

/-- An application and a library below it were registered, and nothing else. -/
def AppWithLib (r : Recorder) : Prop := ∃ r₁ : Recorder,
  ({} : Recorder).register "/src/package.json" { component := .npm "app" "1" none }
    { explicit := true } = .ok r₁ ∧
  r₁.register "/src/package.json" { component := .npm "lib" "2" none }
    { parent := some (Component.npm "app" "1" none).id } = .ok r

theorem exists_appWithLib : ∃ r : Recorder, r.AppWithLib := ⟨_, _, rfl, rfl⟩

theorem AppWithLib.filled {r : Recorder} (both : r.AppWithLib)
    (app : admits { component := .npm "app" "1" none })
    (lib : admits { component := .npm "lib" "2" none }) : r.Filled admits := by
  obtain ⟨r₁, first, second⟩ := both
  exact .register (.register (.new true .productionWins) app first) lib second

end Recorder

end Inventory
