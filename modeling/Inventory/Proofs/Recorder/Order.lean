import Inventory.Proofs.Graph.Order
import Inventory.Recorder.Shared

/-! Registration in any order. To the graph a run of registrations is a run of additions, and the
frameworks that are stored only grow, so the order of the calls is seen in the stored payload and in
edges whose upper end came late. -/
namespace Inventory.FileRecorder

variable {r : FileRecorder} {calls order : List Registration} {schedule : List Nat}

def Task.rest : Task → Graph.Task
  | store c => .see c.addition
  | add rest => rest

/-- To the graph, registering is adding. -/
theorem execute_graph (r : FileRecorder) (calls : List Registration) (schedule : List Nat) :
    ∃ schedule', Shared.view graph Task.rest ((r.registering calls).execute Task.step schedule) =
      (Graph.calling r.graph (calls.map (·.addition))).execute Graph.Task.step schedule' := by
  have start : Shared.view graph Task.rest (r.registering calls) =
      Graph.calling r.graph (calls.map (·.addition)) := by
    simp [Shared.view, registering, Graph.calling, Function.comp_def, Task.rest]
  rw [← start]
  refine Shared.execute_view (fun r t => ?_) (r.registering calls) schedule
  cases t with
  | store c => exact .inr rfl
  | add rest => exact .inl rfl

theorem eq_done_of_finished {tasks : List Task} (last : finished tasks = true) :
    ∀ t ∈ tasks, t = .add .done :=
  fun t member => by simpa using List.all_eq_true.mp last t member

theorem finished_rest {tasks : List Task} (last : finished tasks = true) :
    Graph.finished (tasks.map Task.rest) = true := by
  simp only [Graph.finished, List.all_map, List.all_eq_true]
  intro t member
  rw [eq_done_of_finished last t member]
  rfl

def frameworks (r : FileRecorder) : SortedMap StringSet := r.components.map (·.frameworks)

def addFrameworks (stored : SortedMap StringSet) (c : Registration) : SortedMap StringSet :=
  stored.upsert c.id fun old =>
    (StringSet.union (old.getD c.detected.frameworks) c.detected.frameworks).addAll
      c.usage.framework.toList

def hasFramework (r : FileRecorder) (id name : String) : Bool :=
  (r.frameworks.get? id).any (·.contains name)

def Registration.brings (c : Registration) (name : String) : Bool :=
  c.detected.frameworks.contains name || c.usage.framework == some name

theorem frameworks_store (r : FileRecorder) (c : Registration) :
    (r.store c.detected c.usage.framework).frameworks = addFrameworks r.frameworks c := by
  refine SortedMap.ext_get? fun id => ?_
  simp only [frameworks, store, addFrameworks, SortedMap.get?_map, SortedMap.get?_upsert]
  by_cases same : c.id = id
  · subst same
    have key : c.detected.id = c.id := rfl
    cases old : r.components.get? c.id <;> simp [withFrameworks, key, old]
  · have key : ¬ c.detected.id = id := same
    simp [same, key]

theorem contains_addFrameworks (stored : SortedMap StringSet) (c : Registration) (id : String) :
    (addFrameworks stored c).contains id = (c.id == id || stored.contains id) :=
  SortedMap.contains_upsert ..

theorem any_addFrameworks (stored : SortedMap StringSet) (c : Registration) (id name : String) :
    ((addFrameworks stored c).get? id).any (·.contains name) =
      ((stored.get? id).any (·.contains name) || (c.id == id && c.brings name)) := by
  rw [addFrameworks, SortedMap.get?_upsert]
  by_cases same : c.id = id
  · subst same
    rw [Bool.eq_iff_iff]
    cases stored.get? c.id <;>
      simp [StringSet.contains_addAll, Registration.brings, or_comm, or_left_comm]
  · simp [same]

theorem addFrameworks_right_comm (stored : SortedMap StringSet) (c d : Registration) :
    addFrameworks (addFrameworks stored c) d = addFrameworks (addFrameworks stored d) c := by
  refine StringSet.ext_sets (fun id => ?_) fun id name => ?_
  · simp [contains_addFrameworks, Bool.or_left_comm]
  · simp [any_addFrameworks, Bool.or_right_comm]

section Stored

variable (stored : SortedMap StringSet) (calls : List Registration) (id : String)

theorem contains_foldl_addFrameworks : (calls.foldl addFrameworks stored).contains id =
    (stored.contains id || calls.any (·.id == id)) := by
  induction calls generalizing stored with
  | nil => simp
  | cons c calls ih => simp [ih, contains_addFrameworks, Bool.or_assoc, Bool.or_left_comm]

theorem any_foldl_addFrameworks (name : String) :
    ((calls.foldl addFrameworks stored).get? id).any (·.contains name) =
      ((stored.get? id).any (·.contains name) ||
        calls.any fun c => c.id == id && c.brings name) := by
  induction calls generalizing stored with
  | nil => simp
  | cons c calls ih => rw [List.foldl_cons, ih, any_addFrameworks, List.any_cons, Bool.or_assoc]

end Stored

def Task.stores? : Task → Option Registration
  | store c => some c
  | add _ => none

theorem frameworks_step (r : FileRecorder) (t : Task) : (t.step r).1.frameworks =
    t.stores?.elim r.frameworks (addFrameworks r.frameworks) := by
  cases t with
  | store c => exact frameworks_store r c
  | add rest => rfl

theorem stores_step (r : FileRecorder) (t : Task) : (t.step r).2.stores? = none := by
  cases t <;> rfl

theorem stores_of_finished {tasks : List Task} (last : finished tasks = true) :
    tasks.filterMap Task.stores? = [] := by
  refine List.filterMap_eq_nil_iff.mpr fun t member => ?_
  rw [eq_done_of_finished last t member]
  rfl

/-- Whatever the interleaving, the frameworks come to the same. -/
theorem frameworks_of_finished
    (last : finished ((r.registering calls).execute Task.step schedule).tasks = true) :
    ((r.registering calls).execute Task.step schedule).state.frameworks =
      calls.foldl addFrameworks r.frameworks := by
  obtain ⟨log, perm, stored⟩ :=
    Shared.execute_log stores_step frameworks_step (r.registering calls) schedule
  have start : (r.registering calls).tasks.filterMap Task.stores? = calls := by
    simp [registering, List.filterMap_map, Function.comp_def, Task.stores?]
  rw [stores_of_finished last, List.append_nil, start] at perm
  rw [stored]
  exact perm.foldl_eq' (fun _ _ _ _ m => addFrameworks_right_comm m ..) _

structure Registered (r : FileRecorder) (calls : List Registration) (f : FileRecorder) : Prop where
  ids : ∀ id, f.graph.contains id = (r.graph.contains id || calls.any (·.id == id))
  explicit : ∀ id, f.graph.marked id =
    (r.graph.marked id || calls.any fun c => c.id == id && c.usage.explicit)
  development : ∀ id, f.graph.development? id = r.graph.rule.effective
    (r.graph.development? id :: (calls.filter (·.id == id)).map (·.usage.development))
  scope : ∀ id scope, f.graph.scope? id = some scope ↔ Scope.Highest
    (r.graph.scope? id :: (calls.filter (·.id == id)).map (·.usage.scope)) scope
  stored : ∀ id, f.components.contains id = (r.components.contains id || calls.any (·.id == id))
  frameworks : ∀ id name, f.hasFramework id name =
    (r.hasFramework id name || calls.any fun c => c.id == id && c.brings name)
  relatedFiles : f.graph.relatedFiles = r.graph.relatedFiles

structure Linked (r : FileRecorder) (calls : List Registration) (f : FileRecorder) : Prop where
  children : ∀ a b, f.graph.HasChild a b ↔ r.graph.HasChild a b ∨ ∃ c ∈ calls, c.addition.Asks a b
  parents : ∀ a b, f.graph.HasParent b a ↔ r.graph.HasParent b a ∨ ∃ c ∈ calls, c.addition.Asks a b
  failures : f.graph.failures = r.graph.failures

/-- The same but for the payload of what is stored. -/
structure Agrees (f g : FileRecorder) : Prop where
  graph : f.graph = g.graph
  frameworks : f.frameworks = g.frameworks

/-- The same but for that payload, edges, and failures to find a parent. -/
structure AgreesBesideEdges (f g : FileRecorder) : Prop where
  graph : f.graph.bare = g.graph.bare
  frameworks : f.frameworks = g.frameworks
  failures : ∀ text, (∀ a b, text ≠ Graph.missingParent a b) →
    f.graph.failures.contains text = g.graph.failures.contains text

theorem contains_frameworks (r : FileRecorder) (id : String) :
    r.frameworks.contains id = r.components.contains id := by
  rw [SortedMap.contains_eq_isSome, SortedMap.contains_eq_isSome, frameworks, SortedMap.get?_map,
    Option.isSome_map]

/-- A finished run, to the graph. -/
theorem graph_of_finished
    (last : finished ((r.registering calls).execute Task.step schedule).tasks = true) :
    ∃ schedule',
      ((Graph.calling r.graph (calls.map (·.addition))).execute Graph.Task.step schedule').state =
        ((r.registering calls).execute Task.step schedule).state.graph ∧
      Graph.finished ((Graph.calling r.graph (calls.map (·.addition))).execute
        Graph.Task.step schedule').tasks = true := by
  obtain ⟨schedule', run⟩ := execute_graph r calls schedule
  exact ⟨schedule', (congrArg Shared.state run).symm,
    (congrArg (Graph.finished ·.tasks) run) ▸ finished_rest last⟩

theorem bare_of_finished
    (last : finished ((r.registering calls).execute Task.step schedule).tasks = true) :
    ((r.registering calls).execute Task.step schedule).state.graph.bare =
      (calls.map (·.addition.sighting)).foldl Graph.see r.graph.bare := by
  obtain ⟨schedule', state, done⟩ := graph_of_finished last
  rw [← state, Graph.bare_of_finished done, List.map_map]
  rfl

theorem registered_of_finished
    (last : finished ((r.registering calls).execute Task.step schedule).tasks = true) :
    Registered r calls ((r.registering calls).execute Task.step schedule).state := by
  have bare := bare_of_finished last
  have stored := frameworks_of_finished last
  generalize ((r.registering calls).execute Task.step schedule).state = f at bare stored
  constructor
  case ids =>
    intro id
    rw [← Graph.contains_bare f.graph, bare, Graph.contains_foldl_see, Graph.contains_bare,
      List.any_map]
    rfl
  case explicit =>
    intro id
    rw [← Graph.marked_bare f.graph, bare, Graph.marked_foldl_see, Graph.marked_bare, List.any_map]
    rfl
  case development =>
    intro id
    rw [← Graph.development?_bare f.graph, bare, Graph.development?_foldl_see, List.filter_map,
      List.map_map, Graph.development?_bare]
    rfl
  case scope =>
    intro id scope
    rw [← Graph.scope?_bare f.graph, bare, Graph.scope?_foldl_see, List.filter_map,
      List.map_map, Graph.scope?_bare]
    rfl
  case stored =>
    intro id
    rw [← contains_frameworks, stored, contains_foldl_addFrameworks, contains_frameworks]
  case frameworks =>
    intro id name
    rw [hasFramework, stored, any_foldl_addFrameworks, hasFramework]
  case relatedFiles =>
    have files (g : Graph) (said : List Sighting) :
        (said.foldl Graph.see g).relatedFiles = g.relatedFiles := by
      induction said generalizing g with
      | nil => rfl
      | cons s said ih => exact ih (g.see s)
    exact (congrArg Graph.relatedFiles bare).trans (files _ _)

theorem linked_of_finished
    (last : finished ((r.registering calls).execute Task.step schedule).tasks = true)
    (known : r.graph.ParentsIn (calls.map (·.addition))) :
    Linked r calls ((r.registering calls).execute Task.step schedule).state := by
  obtain ⟨schedule', state, done⟩ := graph_of_finished last
  have progress := Graph.execute_progress
    (Graph.start_progress r.graph (calls.map (·.addition))) schedule'
  have asks (a b : String) : (∃ c ∈ calls.map (·.addition), c.Asks a b) ↔
      ∃ c ∈ calls, c.addition.Asks a b := by simp
  constructor
  case children =>
    intro a b
    rw [← state, Graph.hasChild_of_finished progress done known, asks]
  case parents =>
    intro a b
    rw [← state, Graph.hasParent_of_finished progress done known, asks]
  case failures => rw [← state, Graph.failures_of_known progress known]

/-- No run takes a failure back, and only missing parents are new ones. -/
theorem failures_of_finished
    (last : finished ((r.registering calls).execute Task.step schedule).tasks = true)
    {text : String} (other : ∀ a b, text ≠ Graph.missingParent a b) :
    ((r.registering calls).execute Task.step schedule).state.graph.failures.contains text =
      r.graph.failures.contains text := by
  obtain ⟨schedule', state, _⟩ := graph_of_finished last
  have progress := Graph.execute_progress
    (Graph.start_progress r.graph (calls.map (·.addition))) schedule'
  rw [← state, Bool.eq_iff_iff]
  refine ⟨fun failed => ?_, progress.within.failures text⟩
  rcases progress.failures text failed with old | ⟨_, _, a, b, _, _, same⟩
  · exact old
  · exact absurd same (other a b)

theorem iterate_step_add (n : Nat) (r : FileRecorder) (t : Graph.Task) :
    (fun p => Task.step p.1 p.2)^[n] (r, .add t) =
      ({ r with graph := ((fun p => Graph.Task.step p.1 p.2)^[n] (r.graph, t)).1 },
        .add ((fun p => Graph.Task.step p.1 p.2)^[n] (r.graph, t)).2) := by
  induction n generalizing r t with
  | zero => rfl
  | succ n ih => exact ih _ _

/-- A call alone ends after four accesses. -/
theorem iterate_step_store (r : FileRecorder) (c : Registration) :
    (fun p => Task.step p.1 p.2)^[4] (r, .store c) = (r.registerCall c, .add .done) := by
  refine (iterate_step_add 3 (r.store c.detected c.usage.framework) (.see c.addition)).trans ?_
  rw [Graph.iterate_step_see]
  rfl

/-- Taking the calls in turn is one of their interleavings. -/
theorem exists_in_turn (r : FileRecorder) (calls : List Registration) : ∃ schedule,
    ((r.registering calls).execute Task.step schedule).state = calls.foldl registerCall r ∧
      finished ((r.registering calls).execute Task.step schedule).tasks = true := by
  have run := Shared.execute_in_turn iterate_step_store r calls
  exact ⟨Shared.inTurn 4 calls.length, congrArg Shared.state run,
    (congrArg (finished ·.tasks) run).trans (by simp [finished])⟩

theorem agreesBesideEdges_of_finished {other : List Nat} (perm : order.Perm calls)
    (last : finished ((r.registering calls).execute Task.step schedule).tasks = true)
    (last' : finished ((r.registering order).execute Task.step other).tasks = true) :
    AgreesBesideEdges ((r.registering calls).execute Task.step schedule).state
      ((r.registering order).execute Task.step other).state where
  graph := by
    rw [bare_of_finished last, bare_of_finished last']
    exact Graph.foldl_see_perm _ (perm.symm.map _)
  frameworks := by
    rw [frameworks_of_finished last, frameworks_of_finished last']
    exact perm.symm.foldl_eq' (fun _ _ _ _ m => addFrameworks_right_comm m ..) _
  failures text other := by rw [failures_of_finished last other, failures_of_finished last' other]

theorem AgreesBesideEdges.linked {f g : FileRecorder} (agrees : AgreesBesideEdges f g)
    (perm : order.Perm calls) (linked : Linked r calls f) (linked' : Linked r order g) :
    Agrees f g where
  graph := by
    have asks (a b : String) :
        (∃ c ∈ calls, c.addition.Asks a b) ↔ ∃ c ∈ order, c.addition.Asks a b := by
      simp only [perm.mem_iff]
    refine Graph.eq_of_bare agrees.graph (fun a b => ?_) (fun a b => ?_) ?_
    · rw [linked.children, linked'.children, asks]
    · rw [linked.parents, linked'.parents, asks]
    · rw [linked.failures, linked'.failures]
  frameworks := agrees.frameworks

def Task.remaining : Task → Nat
  | store _ => 4
  | add rest => rest.remaining

theorem remaining_step (r : FileRecorder) (t : Task) :
    (t.step r).2.remaining ≤ t.remaining - 1 := by
  cases t with
  | store c => exact Nat.le_refl 3
  | add rest => exact Graph.remaining_step r.graph rest

/-- A call ends after four accesses, whatever comes between them. -/
theorem done_of_count (r : FileRecorder) {i : Nat} (call : i < calls.length)
    (enough : 4 ≤ schedule.count i) :
    ((r.registering calls).execute Task.step schedule).tasks[i]? = some (.add .done) := by
  have task : (r.registering calls).tasks[i]? = some (.store calls[i]) := by
    simp [registering, call]
  obtain ⟨u, found, le⟩ := Shared.execute_count remaining_step schedule task
  have none : u.remaining = 0 := by
    rw [Task.remaining, Nat.sub_eq_zero_of_le enough] at le
    exact Nat.le_zero.mp le
  cases u with
  | store c => cases none
  | add rest => rwa [Graph.eq_done_of_remaining none] at found

theorem finished_of_count (r : FileRecorder) (enough : ∀ i < calls.length, 4 ≤ schedule.count i) :
    finished ((r.registering calls).execute Task.step schedule).tasks = true := by
  refine List.all_eq_true.mpr fun t member => ?_
  obtain ⟨i, bound, rfl⟩ := List.getElem_of_mem member
  have call : i < calls.length := by
    rwa [Shared.length_execute, registering, List.length_map] at bound
  have done := done_of_count r call (enough i call)
  rw [List.getElem?_eq_getElem bound] at done
  rw [Option.some.inj done]
  rfl

/-- Any two interleavings of the same calls on any recorder, and the calls one after another. Where
a parent was not there before the calls, it is up to their order which edges are written. -/
theorem register_in_any_order (r : FileRecorder) (calls order : List Registration)
    (schedule other : List Nat) (perm : order.Perm calls)
    (last : finished ((r.registering calls).execute Task.step schedule).tasks = true)
    (last' : finished ((r.registering order).execute Task.step other).tasks = true) :
    let f := ((r.registering calls).execute Task.step schedule).state
    let g := ((r.registering order).execute Task.step other).state
    let inTurn := order.foldl registerCall r
    Registered r calls f ∧ AgreesBesideEdges f g ∧ AgreesBesideEdges f inTurn ∧
      ((∀ c ∈ calls, ∀ parent, c.usage.parent = some parent → r.graph.contains parent = true) →
        Linked r calls f ∧ Agrees f g ∧ Agrees f inTurn) := by
  intro f g inTurn
  -- The calls in turn are one more interleaving of them.
  obtain ⟨turns, state, done⟩ := exists_in_turn r order
  change _ = inTurn at state
  have others := agreesBesideEdges_of_finished perm last last'
  have sequential : AgreesBesideEdges f inTurn :=
    state ▸ agreesBesideEdges_of_finished perm last done
  refine ⟨registered_of_finished last, others, sequential, fun known => ?_⟩
  have first : r.graph.ParentsIn (calls.map (·.addition)) := by
    intro c member parent asks
    obtain ⟨d, among, rfl⟩ := List.mem_map.mp member
    exact known d among parent asks
  have second : r.graph.ParentsIn (order.map (·.addition)) :=
    fun c member => first c ((perm.map _).mem_iff.mp member)
  have linked : Linked r calls f := linked_of_finished last first
  have linked' : Linked r order inTurn := state ▸ linked_of_finished done second
  exact ⟨linked, others.linked perm linked (linked_of_finished last' second),
    sequential.linked perm linked linked'⟩

theorem register_in_any_order_below_parent :
    let app : Component := .npm "app" "1" none
    let lib : Component := .npm "lib" "2" none
    let r := ({} : FileRecorder).register { component := app } { explicit := true }
    let below : Registration := ⟨{ component := lib }, { parent := some app.id }⟩
    let named : Registration :=
      ⟨{ component := lib }, { explicit := true, framework := some "net8.0" }⟩
    Agrees ((r.registering [below, named]).execute Task.step [0, 1, 0, 1, 0, 1, 0, 1]).state
      ((r.registering [named, below]).execute Task.step [1, 1, 0, 0, 1, 1, 0, 0]).state := by
  intro app lib r below named
  have known : ∀ c ∈ [below, named], ∀ parent, c.usage.parent = some parent →
      r.graph.contains parent = true := by
    intro c member parent asks
    rcases List.mem_pair.mp member with rfl | rfl
    · obtain rfl : app.id = parent := Option.some.inj asks
      decide
    · cases asks
  have last : finished ((r.registering [below, named]).execute Task.step
      [0, 1, 0, 1, 0, 1, 0, 1]).tasks = true := finished_of_count r (by decide)
  have last' : finished ((r.registering [named, below]).execute Task.step
      [1, 1, 0, 0, 1, 1, 0, 0]).tasks = true := finished_of_count r (by decide)
  exact ((register_in_any_order r [below, named] [named, below] _ _ (.swap ..) last
    last').2.2.2 known).2.1

end Inventory.FileRecorder
