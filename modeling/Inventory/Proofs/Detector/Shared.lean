import Inventory.Detector.Shared
import Inventory.Proofs.Detector.Manifest
import Inventory.Proofs.Shared

/-! Manifests that are read at once. A task writes to the recorder of its own manifest only, so what
another task has come to stays as it is, and in the end each manifest has what its script makes of a
new recorder, whatever the order of the steps. -/
namespace Inventory.Manifest

open FileRecorder (Script Call)

variable {r : Recorder} {location key : String} {outcome : FileRecorder} {t : Task}
  {ms : List Manifest} {script : Manifest → Script} {read : Reader}

namespace Task

/-- What the task at a location has done and has still to do comes to `outcome`. -/
def Heads (r : Recorder) (location : String) (outcome : FileRecorder) : Task → Prop
  | create place script =>
    place = location ∧ r.files.get? location = none ∧ script.run r.newFile = outcome
  | work place rest =>
    place = location ∧ ∃ f, r.files.get? location = some f ∧ rest.run f = outcome
  | done => r.files.get? location = some outcome

theorem Heads.congr {r' : Recorder} (heads : t.Heads r location outcome)
    (file : r'.files.get? location = r.files.get? location) (new : r'.newFile = r.newFile) :
    t.Heads r' location outcome := by
  cases t with
  | create => rwa [Heads, file, new]
  | work => rwa [Heads, file]
  | done => rwa [Heads, file]

theorem step_mode (t : Task) (r : Recorder) :
    (t.step r).1.manualRoots = r.manualRoots ∧ (t.step r).1.rule = r.rule := by
  cases t with
  | create place script =>
    simp only [step, Recorder.create]
    split
    next => exact ⟨rfl, rfl⟩
    next made =>
      split at made
      · cases made
      · obtain rfl := Except.ok.inj made
        exact ⟨rfl, rfl⟩
  | work place rest => cases rest <;> exact ⟨rfl, rfl⟩
  | done => exact ⟨rfl, rfl⟩

theorem step_newFile (t : Task) (r : Recorder) : (t.step r).1.newFile = r.newFile := by
  obtain ⟨manualRoots, rule⟩ := step_mode t r
  rw [Recorder.newFile, Recorder.newFile, manualRoots, rule]

/-- A step leaves the recorders of all other manifests as they are. -/
theorem Heads.frame (heads : t.Heads r location outcome) (other : key ≠ location) :
    (t.step r).1.files.get? key = r.files.get? key := by
  cases t with
  | create place script =>
    obtain ⟨rfl, -⟩ := heads
    simp only [step, Recorder.create]
    split
    next => rfl
    next made =>
      split at made
      · cases made
      · obtain rfl := Except.ok.inj made
        rw [SortedMap.get?_insertNew, if_neg other.symm]
  | work place rest =>
    obtain ⟨rfl, -⟩ := heads
    cases rest with
    | call c rest => rw [step, SortedMap.get?_modify, if_neg other.symm]
    | done | look => rfl
  | done => rfl

theorem Heads.step (heads : t.Heads r location outcome)
    (shown : Text.isBlank location = false) : (t.step r).2.Heads (t.step r).1 location outcome := by
  cases t with
  | create place script =>
    obtain ⟨rfl, fresh, run⟩ := heads
    have created : r.create place = .ok { r with files := r.files.insertNew place r.newFile } := by
      rw [Recorder.create, shown]
      rfl
    simp only [Task.step, created]
    refine ⟨rfl, r.newFile, ?_, run⟩
    rw [SortedMap.get?_insertNew, if_pos rfl, fresh, Option.getD_none]
  | work place rest =>
    obtain ⟨rfl, f, file, run⟩ := heads
    cases rest with
    | done =>
      rw [← run]
      exact file
    | call c rest =>
      refine ⟨rfl, c.apply f, ?_, run⟩
      simp only [Task.step]
      rw [SortedMap.get?_modify, if_pos rfl, file, Option.map_some]
    | look id rest =>
      refine ⟨rfl, f, file, ?_⟩
      rw [file, Option.bind_some]
      exact run
  | done => exact heads

end Task

/-- Every task heads for the result of its manifest, and the recorder holds no other. -/
structure Underway (read : Reader) (start : Recorder) (ms : List Manifest)
    (s : Shared Recorder Task) : Prop where
  mode : s.state.manualRoots = start.manualRoots ∧ s.state.rule = start.rule
  length : s.tasks.length = ms.length
  heads : ∀ (i : Nat) (m : Manifest) (t : Task), ms[i]? = some m → s.tasks[i]? = some t →
    t.Heads s.state m.location (result read start m)
  keys : ∀ key, s.state.files.get? key ≠ none → ∃ m ∈ ms, m.location = key

theorem underway_reading (empty : r.files = .empty)
    (runs : ∀ m ∈ ms, (script m).run r.newFile = result read r m) :
    Underway read r ms (reading r ms script) where
  mode := ⟨rfl, rfl⟩
  length := List.length_map ..
  heads i m t here task := by
    rw [reading, List.getElem?_map, here] at task
    obtain rfl := Option.some.inj task
    refine ⟨rfl, ?_, runs m (List.mem_of_getElem? here)⟩
    rw [reading, empty, SortedMap.get?_empty]
  keys key there := by
    rw [reading, empty] at there
    exact absurd (SortedMap.get?_empty key) there

theorem Underway.advance {s : Shared Recorder Task} {i : Nat} (underway : Underway read r ms s)
    (distinct : (ms.map (·.location)).Nodup) (shown : ∀ m ∈ ms, Text.isBlank m.location = false)
    (task : s.tasks[i]? = some t) :
    Underway read r ms ⟨(t.step s.state).1, s.tasks.set i (t.step s.state).2⟩ := by
  have bound : i < ms.length := underway.length ▸ (List.getElem?_eq_some_iff.mp task).1
  have here : ms[i]? = some ms[i] := List.getElem?_eq_getElem bound
  have own := underway.heads i ms[i] t here task
  refine ⟨?_, ?_, fun j m t' there task' => ?_, fun key there => ?_⟩
  · obtain ⟨manualRoots, rule⟩ := Task.step_mode t s.state
    exact ⟨manualRoots.trans underway.mode.1, rule.trans underway.mode.2⟩
  · rw [List.length_set, underway.length]
  · rw [List.getElem?_set] at task'
    by_cases same : i = j
    · subst same
      obtain rfl := Option.some.inj (here.symm.trans there)
      rw [if_pos rfl, if_pos (underway.length ▸ bound)] at task'
      obtain rfl := Option.some.inj task'
      exact own.step (shown _ (List.getElem_mem bound))
    · rw [if_neg same] at task'
      obtain ⟨bound', rfl⟩ := List.getElem?_eq_some_iff.mp there
      have apart : ms[j].location ≠ ms[i].location := by
        intro equal
        apply same
        have inner : i < (ms.map (·.location)).length := by simpa using bound
        have inner' : j < (ms.map (·.location)).length := by simpa using bound'
        have locations : (ms.map (·.location))[i] = (ms.map (·.location))[j] := by
          simpa using equal.symm
        exact distinct.getElem_inj_iff.mp locations
      exact (underway.heads j ms[j] t' there task').congr (own.frame apart)
        (Task.step_newFile t s.state)
  · by_cases same : key = ms[i].location
    · exact ⟨ms[i], List.getElem_mem bound, same.symm⟩
    · rw [own.frame same] at there
      exact underway.keys key there

theorem underway_execute {s : Shared Recorder Task} (underway : Underway read r ms s)
    (distinct : (ms.map (·.location)).Nodup) (shown : ∀ m ∈ ms, Text.isBlank m.location = false)
    (schedule : List Nat) : Underway read r ms (s.execute Task.step schedule) :=
  Shared.execute_invariant (fun _ _ _ underway task => underway.advance distinct shown task)
    underway schedule

theorem Underway.eq_filled {s : Shared Recorder Task} (underway : Underway read r ms s)
    (distinct : (ms.map (·.location)).Nodup) (ended : finished s.tasks = true) :
    s.state = filled read r ms := by
  have final : ∀ m ∈ ms, s.state.files.get? m.location = some (result read r m) := by
    intro m member
    obtain ⟨i, bound, rfl⟩ := List.getElem_of_mem member
    have bound' : i < s.tasks.length := underway.length ▸ bound
    have heads := underway.heads i ms[i] s.tasks[i] (List.getElem?_eq_getElem bound)
      (List.getElem?_eq_getElem bound')
    have isDone := List.all_eq_true.mp ended s.tasks[i] (List.getElem_mem bound')
    cases task : s.tasks[i] with
    | done => rwa [task] at heads
    | create | work => rw [task] at isDone; cases isDone
  have files : s.state.files = (filled read r ms).files := by
    refine SortedMap.ext_get? fun key => ?_
    apply Option.ext
    intro f
    rw [get?_filled distinct]
    constructor
    · intro there
      obtain ⟨m, member, rfl⟩ := underway.keys key (by rw [there]; exact Option.some_ne_none f)
      rw [final m member] at there
      exact ⟨m, member, rfl, Option.some.inj there⟩
    · rintro ⟨m, member, rfl, rfl⟩
      exact final m member
  obtain ⟨manualRoots, rule⟩ := underway.mode
  calc s.state = ⟨s.state.files, s.state.manualRoots, s.state.rule⟩ := rfl
    _ = filled read r ms := by rw [files, manualRoots, rule]; rfl

/-- In whatever order the steps come, the manifests end as if read one after another. -/
theorem execute_reading (distinct : (ms.map (·.location)).Nodup)
    (shown : ∀ m ∈ ms, Text.isBlank m.location = false) (empty : r.files = .empty)
    (runs : ∀ m ∈ ms, (script m).run r.newFile = result read r m) (schedule : List Nat)
    (ended : finished ((reading r ms script).execute Task.step schedule).tasks = true) :
    ((reading r ms script).execute Task.step schedule).state = filled read r ms :=
  (underway_execute (underway_reading empty runs) distinct shown schedule).eq_filled distinct ended

section Ending

variable {s : Shared Recorder Task} {i : Nat}

def Ends (s : Shared Recorder Task) (i : Nat) : Prop :=
  ∃ schedule, (s.execute Task.step schedule).tasks = s.tasks.set i .done

theorem ends_of_step (task : s.tasks[i]? = some t)
    (next : Ends ⟨(t.step s.state).1, s.tasks.set i (t.step s.state).2⟩ i) : Ends s i := by
  obtain ⟨schedule, tasks⟩ := next
  refine ⟨i :: schedule, ?_⟩
  rw [Shared.execute_cons, Shared.advance_of_task task, tasks, List.set_set]

theorem ends_done (task : s.tasks[i]? = some .done) : Ends s i := by
  obtain ⟨bound, done⟩ := List.getElem?_eq_some_iff.mp task
  refine ⟨[], ?_⟩
  rw [← done, List.set_getElem_self]
  rfl

theorem ends_work {rest : Script} (task : s.tasks[i]? = some (.work location rest)) :
    Ends s i := by
  have bound := (List.getElem?_eq_some_iff.mp task).1
  induction rest generalizing s with
  | done =>
    apply ends_of_step task
    apply ends_done
    exact List.getElem?_set_self bound
  | call c rest ih =>
    have next := List.getElem?_set_self (a := Task.work location rest) bound
    apply ends_of_step task
    exact ih next (List.getElem?_eq_some_iff.mp next).1
  | look id rest ih =>
    have next := List.getElem?_set_self
      (a := ((Task.work location (.look id rest)).step s.state).2) bound
    apply ends_of_step task
    exact ih _ next (List.getElem?_eq_some_iff.mp next).1

theorem ends_task (task : s.tasks[i]? = some t) : Ends s i := by
  have bound := (List.getElem?_eq_some_iff.mp task).1
  cases t with
  | done => exact ends_done task
  | work place rest => exact ends_work task
  | create place script =>
    have next := List.getElem?_set_self (a := ((Task.create place script).step s.state).2) bound
    apply ends_of_step task
    simp only [Task.step] at next ⊢
    split at next
    · exact ends_done next
    · exact ends_work next

/-- From wherever the tasks are, some schedule brings all of them to their end. -/
theorem exists_finished (s : Shared Recorder Task) :
    ∃ schedule, finished (s.execute Task.step schedule).tasks = true := by
  have first : ∀ n ≤ s.tasks.length, ∃ schedule, (s.execute Task.step schedule).tasks =
      List.replicate n .done ++ s.tasks.drop n := by
    intro n
    induction n with
    | zero => exact fun _ => ⟨[], rfl⟩
    | succ n ih =>
      intro bound
      obtain ⟨schedule, tasks⟩ := ih (by omega)
      have task : (s.execute Task.step schedule).tasks[n]? = some s.tasks[n] := by
        rw [tasks, List.getElem?_append_right (by simp)]
        simp
      obtain ⟨schedule', tasks'⟩ := ends_task task
      refine ⟨schedule ++ schedule', ?_⟩
      rw [Shared.execute_append, tasks', tasks, List.drop_eq_getElem_cons (by omega),
        List.replicate_succ']
      simp [-List.getElem_cons_drop]
  obtain ⟨schedule, tasks⟩ := first s.tasks.length (Nat.le_refl _)
  refine ⟨schedule, ?_⟩
  rw [tasks, List.drop_length, finished]
  simp [Task.isDone]

end Ending

end Inventory.Manifest
