import Inventory.Proofs.Component.Order
import Inventory.Proofs.Recorder.Filled

/-! Recorders and the runs that filled them. The log of a run lists what was registered and in which
manifest, and the recorder of each manifest holds what its part of the log says. -/
namespace Inventory

open FileRecorder (Registration)

namespace FileRecorder

variable {f : FileRecorder} {rule : DevelopmentRule} {calls more : List Registration}
  {schedule : List Nat}

def ofId (calls : List Registration) (id : String) : List Registration :=
  calls.filter (·.id == id)

/-- What a recorder of one manifest holds after these registrations, in whatever order they came. -/
structure Holds (rule : DevelopmentRule) (calls : List Registration) (f : FileRecorder) : Prop where
  merging : f.graph.rule = rule
  ids : ∀ id, f.graph.contains id = calls.any (·.id == id)
  development : ∀ id, f.graph.development? id =
    rule.effective ((ofId calls id).map (·.usage.development))
  scope : ∀ id, f.graph.scope? id = ((ofId calls id).map (·.usage.scope)).foldl Scope.merge none
  frameworks : ∀ id name, f.hasFramework id name = calls.any fun c => c.id == id && c.brings name

theorem holds_empty (manualRoots : Bool) (rule : DevelopmentRule) :
    Holds rule [] { graph := { manualRoots, rule } } := by
  constructor <;> intros <;> rfl

/-- What is written beside the nodes does not matter. -/
theorem Holds.withGraph {g : Graph} (holds : f.Holds rule calls) (nodes : g.nodes = f.graph.nodes)
    (same : g.rule = f.graph.rule) : Holds rule calls { f with graph := g } := by
  obtain ⟨merging, ids, development, scope, frameworks⟩ := holds
  cases g
  cases nodes
  exact ⟨same.trans merging, ids, development, scope, frameworks⟩

theorem rule_of_finished
    (last : finished ((f.registering calls).execute Task.step schedule).tasks = true) :
    ((f.registering calls).execute Task.step schedule).state.graph.rule = f.graph.rule := by
  have seen (g : Graph) (said : List Sighting) : (said.foldl Graph.see g).rule = g.rule := by
    induction said generalizing g with
    | nil => rfl
    | cons s said ih => exact ih (g.see s)
  exact (congrArg Graph.rule (bare_of_finished last)).trans (seen _ _)

theorem Holds.together (holds : f.Holds rule calls)
    (last : finished ((f.registering more).execute Task.step schedule).tasks = true) :
    ((f.registering more).execute Task.step schedule).state.Holds rule (calls ++ more) := by
  have registered := registered_of_finished last
  have kept := rule_of_finished last
  generalize ((f.registering more).execute Task.step schedule).state = after at registered kept
  constructor
  case merging => exact kept.trans holds.merging
  case ids =>
    intro id
    rw [registered.ids, holds.ids, List.any_append]
  case development =>
    intro id
    rw [registered.development, holds.merging, holds.development, ofId, ofId, List.filter_append,
      List.map_append, rule.effective_append, DevelopmentRule.effective, List.foldl_cons,
      rule.merge_none]
  case scope =>
    intro id
    apply Option.ext
    intro s
    rw [registered.scope, ← Scope.foldl_merge_eq_some_iff, holds.scope, ofId, ofId,
      List.filter_append, List.map_append, List.foldl_append]
  case frameworks =>
    intro id name
    rw [registered.frameworks, holds.frameworks, List.any_append]

theorem Holds.register (holds : f.Holds rule calls) (d : Detected) (u : Usage) :
    (f.register d u).Holds rule (calls ++ [⟨d, u⟩]) := by
  obtain ⟨schedule, state, done⟩ := exists_in_turn f [⟨d, u⟩]
  change _ = f.register d u at state
  exact state ▸ holds.together done

end FileRecorder

namespace Recorder

abbrev Log := List (String × Registration)

inductive Writes : Recorder → Log → Recorder → Prop where
  | create (location : String) : r.create location = .ok r' → Writes r [] r'
  | register (location : String) (d : Detected) (u : Usage) :
      r.register location d u = .ok r' → Writes r [(location, ⟨d, u⟩)] r'
  | addFailure (location text : String) : r.addFailure location text = .ok r' → Writes r [] r'
  | addRelatedFile (location path : String) :
      r.addRelatedFile location path = .ok r' → Writes r [] r'
  | together (location : String) (f : FileRecorder) (calls : List Registration)
      (schedule : List Nat) : r.files.get? location = some f →
      FileRecorder.finished ((f.registering calls).execute FileRecorder.Task.step schedule).tasks →
      Writes r (calls.map (location, ·))
        (r.put location ((f.registering calls).execute FileRecorder.Task.step schedule).state)

/-- Recorders that a run comes to from a new one, and the log of the run. -/
inductive Logged : Log → Recorder → Prop where
  | new (manualRoots : Bool) (rule : DevelopmentRule) : Logged [] { manualRoots, rule }
  | write : Logged log r → Writes r more r' → Logged (log ++ more) r'

variable {r r' : Recorder} {log more : Log} {admits : Detected → Prop}

theorem Writes.filled (filled : Filled admits r) (writes : Writes r more r')
    (admitted : ∀ e ∈ more, admits e.2.detected) : Filled admits r' := by
  cases writes with
  | create _ created => exact .create filled created
  | register _ _ _ written => exact .register filled (admitted _ List.mem_cons_self) written
  | addFailure _ _ written => exact .addFailure filled written
  | addRelatedFile _ _ written => exact .addRelatedFile filled written
  | together _ _ _ _ there last =>
    exact .together filled there (fun c member => admitted _ (List.mem_map_of_mem member)) last

/-- A run that registers only what `admits` allows fills a recorder with it. -/
theorem Logged.filled (logged : Logged log r) (admitted : ∀ e ∈ log, admits e.2.detected) :
    Filled admits r := by
  induction logged with
  | new manualRoots rule => exact .new manualRoots rule
  | write _ writes ih =>
    exact writes.filled (ih fun e member => admitted e (List.mem_append_left _ member))
      fun e member => admitted e (List.mem_append_right _ member)

def fileAt (r : Recorder) (location : String) : FileRecorder :=
  (r.files.get? location).getD r.newFile

theorem fileAt_of_get? {location : String} {f : FileRecorder}
    (file : r.files.get? location = some f) : r.fileAt location = f := by
  rw [fileAt, file, Option.getD_some]

theorem fileAt_create {location : String} (created : r.create location = .ok r') (key : String) :
    r'.rule = r.rule ∧ r'.fileAt key = r.fileAt key := by
  unfold create at created
  split at created
  · cases created
  · cases created
    refine ⟨rfl, ?_⟩
    simp only [fileAt, SortedMap.get?_insertNew]
    by_cases same : location = key
    · subst same
      cases r.files.get? location <;> simp [newFile]
    · simp [same, newFile]

theorem fileAt_write {location : String} {g : FileRecorder → FileRecorder}
    (written : r.write location g = .ok r') (key : String) : r'.rule = r.rule ∧
      r'.fileAt key = if location = key then g (r.fileAt location) else r.fileAt key := by
  unfold write create at written
  split at written
  · cases written
  · cases written
    refine ⟨rfl, ?_⟩
    simp only [fileAt, SortedMap.get?_modify, SortedMap.get?_insertNew]
    by_cases same : location = key
    · subst same
      cases r.files.get? location <;> simp [newFile]
    · simp [same, newFile]

theorem fileAt_put (r : Recorder) (location : String) (f : FileRecorder) (key : String) :
    (r.put location f).rule = r.rule ∧
      (r.put location f).fileAt key = if location = key then f else r.fileAt key := by
  refine ⟨rfl, ?_⟩
  simp only [fileAt, put, SortedMap.get?_insert]
  split <;> rfl

def callsAt (log : Log) (location : String) : List Registration :=
  (log.filter (·.1 == location)).map (·.2)

theorem mem_callsAt {location : String} {c : Registration} :
    c ∈ callsAt log location ↔ (location, c) ∈ log := by
  simp [callsAt]

theorem callsAt_append (log more : Log) (location : String) :
    callsAt (log ++ more) location = callsAt log location ++ callsAt more location := by
  simp [callsAt]

/-- Registrations in one manifest add to what is held of this one alone. -/
theorem holds_changed {location key : String} {f : FileRecorder} (calls : List Registration)
    (all : ∀ key, (r.fileAt key).Holds r.rule (callsAt log key))
    (changed : r'.rule = r.rule ∧ r'.fileAt key = if location = key then f else r.fileAt key)
    (here : f.Holds r.rule (callsAt log location ++ calls)) :
    (r'.fileAt key).Holds r'.rule (callsAt (log ++ calls.map (location, ·)) key) := by
  rw [changed.1, changed.2]
  by_cases same : location = key
  · subst same
    have every : callsAt (calls.map (location, ·)) location = calls := by
      simp [callsAt, List.filter_map, Function.comp_def]
    rw [if_pos rfl, callsAt_append, every]
    exact here
  · have none : callsAt (calls.map (location, ·)) key = [] := by
      simp [callsAt, List.filter_map, Function.comp_def, same]
    rw [if_neg same, callsAt_append, none, List.append_nil]
    exact all key

theorem Writes.holds (writes : Writes r more r')
    (all : ∀ key, (r.fileAt key).Holds r.rule (callsAt log key)) (key : String) :
    (r'.fileAt key).Holds r'.rule (callsAt (log ++ more) key) := by
  cases writes with
  | create _ created =>
    obtain ⟨rule, file⟩ := fileAt_create created key
    rw [rule, file, List.append_nil]
    exact all key
  | register location d u written =>
    exact holds_changed [⟨d, u⟩] all (fileAt_write written key) ((all location).register d u)
  | addFailure location text written =>
    have here := (all location).withGraph (g := (r.fileAt location).graph.addFailure text) rfl rfl
    exact holds_changed [] all (fileAt_write written key) (by rwa [List.append_nil])
  | addRelatedFile location path written =>
    have here := (all location).withGraph (g := (r.fileAt location).graph.addRelatedFile path)
      rfl rfl
    exact holds_changed [] all (fileAt_write written key) (by rwa [List.append_nil])
  | together location f calls schedule there last =>
    have before : f.Holds r.rule (callsAt log location) := fileAt_of_get? there ▸ all location
    exact holds_changed calls all (fileAt_put ..) (before.together last)

/-- After any run each manifest holds what was registered in it. -/
theorem Logged.holds (logged : Logged log r) (key : String) :
    (r.fileAt key).Holds r.rule (callsAt log key) := by
  induction logged generalizing key with
  | new manualRoots rule => exact FileRecorder.holds_empty manualRoots rule
  | write _ writes ih => exact writes.holds ih key

end Recorder

end Inventory
