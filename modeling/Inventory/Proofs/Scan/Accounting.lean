import Inventory.Proofs.Scan.Isolation
import Inventory.Proofs.Scan.Restriction
import Inventory.Proofs.Shared
import Inventory.Scan.Shared

/-! A scan accounts for every registered detector, in its result and in its telemetry, in whatever
order the runs come to their end. -/
namespace Inventory

variable {world : FileTree.World} {registry detectors : List Detector} {a : ScanArguments}
  {o : Occasion} {runs : List DetectorRun}

structure ScanResult.Covers (registry : List Detector) (result : ScanResult) : Prop where
  nodup : ((result.detectors ++ result.disabled).map (·.id)).Nodup
  mem_iff : ∀ id, id ∈ (result.detectors ++ result.disabled).map (·.id) ↔ id ∈ registry.map (·.id)
  inOrder : (result.disabled.map (·.id)).Sublist (registry.map (·.id))

theorem ids_disabledDetectors (registry detectors : List Detector) :
    (disabledDetectors registry detectors).map (·.id) =
      (registry.filter fun d => !detectors.any (·.id == d.id)).map (·.id) := by
  simp [disabledDetectors, Function.comp_def, Detector.info]

theorem mem_ids_disabledDetectors {id : String} :
    id ∈ (disabledDetectors registry detectors).map (·.id) ↔
      id ∈ registry.map (·.id) ∧ id ∉ detectors.map (·.id) := by
  simp only [ids_disabledDetectors, List.mem_map, List.mem_filter, Bool.not_eq_true',
    List.any_eq_false, beq_iff_eq, not_exists, not_and]
  constructor
  · rintro ⟨d, ⟨there, other⟩, rfl⟩
    exact ⟨⟨d, there, rfl⟩, other⟩
  · rintro ⟨⟨d, there, rfl⟩, other⟩
    exact ⟨d, ⟨there, other⟩, rfl⟩

/-- A result that names these detectors, some of the registry, and the others as kept out. -/
theorem covers_of_subperm {result : ScanResult} (distinct : (registry.map (·.id)).Nodup)
    (among : detectors.Subperm registry)
    (named : result.detectors.map (·.id) = detectors.map (·.id))
    (disabled : result.disabled = disabledDetectors registry detectors) :
    result.Covers registry where
  nodup := by
    rw [List.map_append, named, disabled]
    refine List.nodup_append'.mpr ⟨?_, ?_, fun id here there => ?_⟩
    · obtain ⟨part, perm, within⟩ := among
      exact (perm.map _).nodup_iff.mp (distinct.sublist (within.map _))
    · rw [ids_disabledDetectors]
      exact distinct.sublist (List.filter_sublist.map _)
    · exact (mem_ids_disabledDetectors.mp there).2 here
  mem_iff id := by
    rw [List.map_append, named, disabled, List.mem_append, mem_ids_disabledDetectors]
    have known : id ∈ detectors.map (·.id) → id ∈ registry.map (·.id) :=
      fun here => (List.map_subset _ among.subset) here
    tauto
  inOrder := by
    rw [disabled, ids_disabledDetectors]
    exact List.filter_sublist.map _

theorem ids_runDetectors (world : FileTree.World) (a : ScanArguments) (r : Restrictions)
    (detectors : List Detector) :
    (runDetectors world a r detectors).map (·.detector.id) = detectors.map (·.id) := by
  simp [runDetectors, Function.comp_def, Detector.execute]

namespace Scan

def Task.run? (world : FileTree.World) (a : ScanArguments) : Task → Option (Nat × DetectorRun)
  | .detect place d => some (place, d.execute world a a.restrictions)
  | .done => none

/-- Runs that ended in the order of their detectors. -/
def inTurn (runs : List DetectorRun) : Ended := runs.zipIdx.map Prod.swap

theorem runs_inTurn (runs : List DetectorRun) : (inTurn runs).map (·.2) = runs := by
  rw [inTurn, List.map_map]
  exact List.zipIdx_map_fst ..

theorem filterMap_run?_detecting (detectors : List Detector) :
    (detecting detectors).tasks.filterMap (Task.run? world a) =
      inTurn (runDetectors world a a.restrictions detectors) := by
  have each : (Task.run? world a ∘ fun p : Detector × Nat => Task.detect p.2 p.1) =
      fun p => some (p.2, p.1.execute world a a.restrictions) := rfl
  rw [detecting, List.filterMap_map, each, inTurn, runDetectors, List.zipIdx_map, List.map_map]
  exact congrFun List.filterMap_eq_map _

theorem foldl_append_singleton {α β : Type} (f : α → β) (l : List α) (front : List β) :
    l.foldl (fun front x => front ++ [f x]) front = front ++ l.map f := by
  rw [List.foldl_append_eq_append, ← List.flatMap_def, ← List.map_eq_flatMap]

theorem run?_step (ended : Ended) (t : Task) : (t.step world a ended).2.run? world a = none := by
  cases t <;> rfl

theorem ended_step (ended : Ended) (t : Task) :
    id (t.step world a ended).1 = (t.run? world a).elim (id ended) (List.concat (id ended)) := by
  cases t with
  | detect place d => exact List.concat_eq_append.symm
  | done => rfl

/-- When all tasks have come to their end each run has ended once. -/
theorem ended_perm {schedule : List Nat}
    (finished : ((detecting detectors).execute (Task.step world a) schedule).tasks.all Task.isDone) :
    ((detecting detectors).execute (Task.step world a) schedule).state.Perm
      (inTurn (runDetectors world a a.restrictions detectors)) := by
  obtain ⟨log, perm, state⟩ := Shared.execute_log run?_step ended_step (detecting detectors)
    schedule
  have none : ((detecting detectors).execute (Task.step world a) schedule).tasks.filterMap
      (Task.run? world a) = [] := by
    refine List.filterMap_eq_nil_iff.mpr fun t there => ?_
    cases t with
    | done => rfl
    | detect => exact absurd (List.all_eq_true.mp finished _ there) Bool.false_ne_true
  have whole : log.foldl List.concat [] = log := by
    have appended := foldl_append_singleton id log []
    simp only [id_eq, ← List.concat_eq_append, List.map_id, List.nil_append] at appended
    exact appended
  rw [none, List.append_nil, filterMap_run?_detecting] at perm
  rw [← id_eq (Shared.execute ..).state, state]
  exact whole.symm ▸ perm

theorem lookup_of_perm {ended : Ended} (perm : ended.Perm (inTurn runs))
    (place : Nat) : ended.lookup place = runs[place]? := by
  have there (run : DetectorRun) : (place, run) ∈ ended ↔ runs[place]? = some run := by
    rw [perm.mem_iff, ← List.mk_mem_zipIdx_iff_getElem?]
    simp [inTurn]
  cases found : ended.lookup place with
  | some run =>
    obtain ⟨before, after, rfl, _⟩ := List.lookup_eq_some_iff.mp found
    exact ((there run).mp (by simp)).symm
  | none =>
    refine (Option.eq_none_iff_forall_ne_some.mpr fun run here => ?_).symm
    -- A run that was looked up and not found has not ended.
    have other := List.lookup_eq_none_iff.mp found _ ((there run).mpr here)
    simp at other

theorem filterMap_getElem? {α : Type} (l : List α) :
    (List.range l.length).filterMap (l[·]?) = l := by
  induction l with
  | nil => rfl
  | cons x l ih =>
    rw [List.length_cons, List.range_succ_eq_map, List.filterMap_cons, List.filterMap_map]
    exact congrArg (x :: ·) ih

theorem inPlace_of_perm {ended : Ended} (perm : ended.Perm (inTurn runs)) :
    inPlace runs.length ended = runs := by
  simp only [inPlace, lookup_of_perm perm]
  exact filterMap_getElem? runs

theorem runs_of_perm {ended : Ended} (perm : ended.Perm (inTurn runs)) :
    (ended.map (·.2)).Perm runs := runs_inTurn runs ▸ perm.map (·.2)

/-- Detectors that take turns in their order. -/
theorem exists_in_turn (world : FileTree.World) (a : ScanArguments) (detectors : List Detector) :
    ∃ schedule, (detecting detectors).execute (Task.step world a) schedule =
      ⟨inTurn (runDetectors world a a.restrictions detectors),
        List.replicate detectors.length .done⟩ := by
  have alone (ended : Ended) (d : Detector × Nat) :
      (fun p => Task.step world a p.1 p.2)^[1] (ended, .detect d.2 d.1) =
        (ended ++ [(d.2, d.1.execute world a a.restrictions)], .done) := rfl
  have run := Shared.execute_in_turn alone [] detectors.zipIdx
  have appended : detectors.zipIdx.foldl
      (fun ended d => ended ++ [(d.2, d.1.execute world a a.restrictions)]) [] =
        inTurn (runDetectors world a a.restrictions detectors) := by
    rw [foldl_append_singleton, inTurn, runDetectors, List.zipIdx_map, List.map_map]
    rfl
  exact ⟨Shared.inTurn 1 detectors.zipIdx.length,
    by rw [detecting, run, appended, List.length_zipIdx]⟩

def isRunOf (id : String) : Telemetry.Record → Bool
  | .detector record => record.detector == id
  | _ => false

theorem countP_isRunOf (id : String) (ended : List DetectorRun) :
    (ended.map fun run => Telemetry.Record.detector run.record).countP (isRunOf id) =
      (ended.map (·.detector.id)).count id := by
  rw [List.countP_map, List.count, List.countP_map]
  rfl

/-- What was posted: one record of each run, in the order in which the runs ended, and then one
of the scan. -/
structure Reports (a : ScanArguments) (result : ScanResult) (runs : List DetectorRun)
    (records : List Telemetry.Record) : Prop where
  posted : ∃ ended : List DetectorRun, ended.Perm runs ∧
    records = ended.map (fun run => .detector run.record) ++ [.scan
      { command := "scan"
        source := a.source
        detectors := result.detectors.map (·.id)
        outcome := some result.outcome
        components := result.components.length }]
  detectors : runs.map (·.detector.id) = result.detectors.map (·.id)
  once : ∀ info ∈ result.detectors, records.countP (isRunOf info.id) = 1

section Completed

variable {result : ScanResult} {ended : List DetectorRun}

theorem ids_of_completed (same : (completed registry detectors a o
      (runDetectors world a a.restrictions detectors) ended).result = .ok result) :
    result.detectors.map (·.id) = detectors.map (·.id) := by
  cases same
  exact (List.map_map ..).trans (ids_runDetectors world a a.restrictions detectors)

theorem covers_of_completed (distinct : (registry.map (·.id)).Nodup)
    (chosen : a.restrictions.apply registry = .ok detectors)
    (same : (completed registry detectors a o
      (runDetectors world a a.restrictions detectors) ended).result = .ok result) :
    result.Covers registry := by
  refine covers_of_subperm distinct (Restrictions.subperm_of_apply chosen) (ids_of_completed same) ?_
  cases same
  rfl

theorem reports_of_completed (covers : result.Covers registry)
    (perm : ended.Perm (runDetectors world a a.restrictions detectors))
    (same : (completed registry detectors a o
      (runDetectors world a a.restrictions detectors) ended).result = .ok result) :
    Reports a result (runDetectors world a a.restrictions detectors)
      (completed registry detectors a o
        (runDetectors world a a.restrictions detectors) ended).records := by
  have ids := ids_of_completed same
  have ran : (runDetectors world a a.restrictions detectors).map (·.detector.id) =
      result.detectors.map (·.id) := (ids_runDetectors ..).trans ids.symm
  refine ⟨⟨ended, perm, ?_⟩, ran, fun info there => ?_⟩
  · rw [ids]
    cases same
    rfl
  · have single : (result.detectors.map (·.id)).Nodup :=
      (List.map_append (f := DetectorInfo.id) ▸ covers.nodup).of_append_left
    rw [completed, List.countP_append, countP_isRunOf, (perm.map _).count_eq, ran]
    exact List.count_eq_one_of_mem single (List.mem_map_of_mem there)

theorem accounts_of_completed (distinct : (registry.map (·.id)).Nodup)
    (chosen : a.restrictions.apply registry = .ok detectors)
    (perm : ended.Perm (runDetectors world a a.restrictions detectors))
    (same : (completed registry detectors a o
      (runDetectors world a a.restrictions detectors) ended).result = .ok result) :
    result.Covers registry ∧ Reports a result (runDetectors world a a.restrictions detectors)
      (completed registry detectors a o
        (runDetectors world a a.restrictions detectors) ended).records := by
  have covers := covers_of_completed distinct chosen same
  exact ⟨covers, reports_of_completed covers perm same⟩

end Completed

end Scan

/-- Whatever the order in which the detectors of a scan come to their end, each detector of the
registry is once in its result, as one that ran or one that was kept out, and each that ran has one
record, however its run ended. If the restrictions fail there is just the record that says so, and
what the detectors do does not matter. The detectors may also take turns. -/
theorem scan_accounts (distinct : (registry.map (·.id)).Nodup) :
    (∃ schedule, Scan.atOnce? world registry a o schedule = some (scan world registry a o)) ∧
    ∀ schedule s, Scan.atOnce? world registry a o schedule = some s →
      s.result = (scan world registry a o).result ∧
      match s.result with
      | .ok result => ∃ detectors, a.restrictions.apply registry = .ok detectors ∧
          result.Covers registry ∧
          Scan.Reports a result (runDetectors world a a.restrictions detectors) s.records
      | .error e => a.restrictions.apply registry = .error e ∧
          s.records = [.scan
            { command := "scan", source := a.source, error := some e.message }] ∧
          ∀ (world' : FileTree.World)
            (behaviour : Detector → FileTree.World → Request → Recorder → Recorder × Ending)
            (schedule' : List Nat), Scan.atOnce? world'
              (registry.map fun d => { d with run := behaviour d }) a o schedule' = some s := by
  cases chosen : a.restrictions.apply registry with
  | error e =>
    refine ⟨⟨[], by simp only [Scan.atOnce?, scan, chosen]⟩, ?_⟩
    simp only [Scan.atOnce?, scan, chosen]
    rintro schedule s ⟨rfl⟩
    refine ⟨rfl, rfl, rfl, fun world' behaviour schedule' => ?_⟩
    have described : Restrictions.Describes fun d => { d with run := behaviour d } :=
      ⟨fun _ => rfl, fun _ => rfl, fun _ => rfl⟩
    rw [Restrictions.apply_map described, chosen]
    rfl
  | ok detectors =>
    have length : (runDetectors world a a.restrictions detectors).length = detectors.length :=
      List.length_map ..
    simp only [Scan.atOnce?, scan, chosen]
    constructor
    · obtain ⟨schedule, run⟩ := Scan.exists_in_turn world a detectors
      refine ⟨schedule, ?_⟩
      have placed := Scan.inPlace_of_perm
        (.refl (Scan.inTurn (runDetectors world a a.restrictions detectors)))
      rw [length] at placed
      simp [run, placed, Scan.runs_inTurn, Scan.Task.isDone]
    · intro schedule s some
      split at some
      case isFalse => cases some
      case isTrue finished =>
        have perm := Scan.ended_perm finished
        have placed := Scan.inPlace_of_perm perm
        rw [length] at placed
        rw [placed] at some
        cases some
        exact ⟨rfl, detectors, rfl,
          Scan.accounts_of_completed distinct chosen (Scan.runs_of_perm perm) rfl⟩

theorem scan_accounts_for_failures :
    let registry : List Detector :=
      [.always "Good" false id (.finished .success .empty),
        .always "Broken" false id (.failed ["no lock file"]),
        .always "Crashed" false id (.panicked none), .always "Slow" true id .hanging,
        { Detector.always "Off" false id .hanging with defaultOff := true }]
    (registry.map (·.id)).Nodup ∧ ∀ schedule s,
      Scan.atOnce? default registry { source := "/src" } ⟨"", default⟩ schedule = some s →
        ∃ result, s.result = .ok result ∧ result.Covers registry ∧
          result.disabled.map (·.id) = ["Off"] ∧
          ∀ id ∈ ["Good", "Broken", "Crashed", "Slow"], s.records.countP (Scan.isRunOf id) = 1 := by
  intro registry
  have distinct : (registry.map (·.id)).Nodup := by decide
  refine ⟨distinct, fun schedule s finished => ?_⟩
  obtain ⟨same, accounts⟩ := (scan_accounts distinct).2 schedule s finished
  have ids : (scan default registry { source := "/src" } ⟨"", default⟩).result.map
      (fun result => (result.detectors.map (·.id), result.disabled.map (·.id))) =
        .ok (["Good", "Broken", "Crashed", "Slow"], ["Off"]) := rfl
  rw [← same] at ids
  cases result : s.result with
  | error e =>
    rw [result] at ids
    cases ids
  | ok result' =>
    rw [result] at ids accounts
    obtain ⟨ran, disabled⟩ := Prod.mk.inj (Except.ok.inj ids)
    obtain ⟨detectors, _, covers, reports⟩ := accounts
    refine ⟨result', rfl, covers, disabled, fun id member => ?_⟩
    rw [← ran] at member
    obtain ⟨info, there, rfl⟩ := List.mem_map.mp member
    exact reports.once info there

end Inventory
