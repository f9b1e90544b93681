import Inventory.Shared
import Mathlib.Data.List.Basic
import Mathlib.Logic.Function.Iterate

/-! Rules for tasks that share a state: what each step keeps holds throughout, a view that single
tasks write once is written by all of them in some order, and steps may be followed on a
coarser state. -/
namespace Inventory.Shared

variable {σ : Type u} {τ : Type v} {step : σ → τ → σ × τ} {s : Shared σ τ} {i : Nat} {t : τ}

theorem advance_of_task (task : s.tasks[i]? = some t) :
    s.advance step i = ⟨(step s.state t).1, s.tasks.set i (step s.state t).2⟩ := by
  simp only [advance, task]

theorem advance_of_none (none : s.tasks[i]? = none) : s.advance step i = s := by
  simp only [advance, none]

theorem execute_cons (s : Shared σ τ) (i : Nat) (schedule : List Nat) :
    s.execute step (i :: schedule) = (s.advance step i).execute step schedule := rfl

theorem execute_append (s : Shared σ τ) (first second : List Nat) :
    s.execute step (first ++ second) = (s.execute step first).execute step second :=
  List.foldl_append

/-- What holds at first and is kept by every step holds after any schedule. -/
theorem execute_invariant {P : Shared σ τ → Prop}
    (keeps : ∀ (s : Shared σ τ) (i : Nat) (t : τ), P s → s.tasks[i]? = some t →
      P ⟨(step s.state t).1, s.tasks.set i (step s.state t).2⟩)
    (start : P s) (schedule : List Nat) : P (s.execute step schedule) := by
  induction schedule generalizing s with
  | nil => exact start
  | cons i schedule ih =>
    refine ih ?_
    cases task : s.tasks[i]? with
    | none =>
      rw [advance_of_none task]
      exact start
    | some t =>
      rw [advance_of_task task]
      exact keeps s i t start task

theorem length_execute (s : Shared σ τ) (schedule : List Nat) :
    (s.execute step schedule).tasks.length = s.tasks.length :=
  execute_invariant (P := fun s' => s'.tasks.length = s.tasks.length)
    (fun _ _ _ same _ => (List.length_set ..).trans same) rfl schedule

/-- A number that every step of a task brings down goes down with each of its turns, whatever comes
between them. -/
theorem execute_count {left : τ → Nat} (less : ∀ x t, left (step x t).2 ≤ left t - 1)
    (schedule : List Nat) (task : s.tasks[i]? = some t) :
    ∃ u, (s.execute step schedule).tasks[i]? = some u ∧ left u ≤ left t - schedule.count i := by
  induction schedule generalizing s t with
  | nil => exact ⟨t, task, by simp⟩
  | cons j schedule ih =>
    by_cases same : j = i
    · subst same
      have bound : j < s.tasks.length := (List.getElem?_eq_some_iff.mp task).1
      have next : (s.advance step j).tasks[j]? = some (step s.state t).2 := by
        simp [advance_of_task task, bound]
      obtain ⟨u, found, le⟩ := ih next
      have less := less s.state t
      refine ⟨u, found, ?_⟩
      rw [List.count_cons_self]
      omega
    · have next : (s.advance step j).tasks[i]? = some t := by
        unfold advance
        split
        · exact task
        · simpa [List.getElem?_set, same] using task
      obtain ⟨u, found, le⟩ := ih next
      exact ⟨u, found, by rwa [List.count_cons_of_ne same]⟩

/-- A task whose steps nothing comes between. -/
theorem execute_replicate (task : s.tasks[i]? = some t) (n : Nat) :
    s.execute step (List.replicate n i) =
      ⟨((fun p => step p.1 p.2)^[n] (s.state, t)).1,
        s.tasks.set i ((fun p => step p.1 p.2)^[n] (s.state, t)).2⟩ := by
  induction n generalizing s t with
  | zero =>
    obtain ⟨bound, rfl⟩ := List.getElem?_eq_some_iff.mp task
    simp [execute]
  | succ n ih =>
    have bound := (List.getElem?_eq_some_iff.mp task).1
    have next : (s.advance step i).tasks[i]? = some (step s.state t).2 := by
      simp [advance_of_task task, bound]
    rw [List.replicate_succ, execute_cons, ih next, advance_of_task task, List.set_set,
      Function.iterate_succ_apply]

/-- Of `count` tasks each takes `n` steps before the next takes any. -/
def inTurn (n count : Nat) : List Nat := (List.range' 0 count).flatMap (List.replicate n)

/-- Tasks that come to their end in `n` steps, taken one after another. -/
theorem execute_in_turn {α : Type w} {start : α → τ} {done : τ} {run : σ → α → σ} {n : Nat}
    (alone : ∀ x a, (fun p => step p.1 p.2)^[n] (x, start a) = (run x a, done))
    (x : σ) (calls : List α) :
    (Shared.mk x (calls.map start)).execute step (inTurn n calls.length) =
      ⟨calls.foldl run x, List.replicate calls.length done⟩ := by
  -- The first `k` tasks have come to their end.
  suffices prefixed : ∀ (k : Nat) (x : σ),
      (Shared.mk x (List.replicate k done ++ calls.map start)).execute step
          ((List.range' k calls.length).flatMap (List.replicate n)) =
        ⟨calls.foldl run x, List.replicate (k + calls.length) done⟩ by
    simpa [inTurn] using prefixed 0 x
  induction calls with
  | nil => exact fun k x => by simp [execute]
  | cons a calls ih =>
    intro k x
    have task : (List.replicate k done ++ (a :: calls).map start)[k]? = some (start a) := by simp
    rw [List.length_cons, List.range'_succ, List.flatMap_cons, execute_append,
      execute_replicate task, alone]
    have tasks : (List.replicate k done ++ (a :: calls).map start).set k done =
        List.replicate (k + 1) done ++ calls.map start := by
      simp [List.replicate_succ']
    rw [tasks, ih, List.foldl_cons, Nat.add_right_comm, Nat.add_assoc]

section Log

variable {β : Type w} {γ : Type x} {writes : τ → Option β} {view : σ → γ} {write : γ → β → γ}

theorem filterMap_middle_perm (f : τ → Option β) (x : τ) (a b : List τ) :
    ((a ++ x :: b).filterMap f).Perm ((f x).toList ++ (a.filterMap f ++ b.filterMap f)) := by
  rw [List.filterMap_append, List.filterMap_cons]
  cases f x with
  | none => exact .refl _
  | some y => exact List.perm_middle

theorem advance_log (once : ∀ x t, writes (step x t).2 = none)
    (effect : ∀ x t, view (step x t).1 = (writes t).elim (view x) (write (view x)))
    (s : Shared σ τ) (i : Nat) : ∃ log,
      (log ++ (s.advance step i).tasks.filterMap writes).Perm (s.tasks.filterMap writes) ∧
        view (s.advance step i).state = log.foldl write (view s.state) := by
  cases task : s.tasks[i]? with
  | none =>
    rw [advance_of_none task]
    exact ⟨[], .refl _, rfl⟩
  | some t =>
    obtain ⟨bound, rfl⟩ := List.getElem?_eq_some_iff.mp task
    rw [advance_of_task task]
    refine ⟨(writes s.tasks[i]).toList, ?_, ?_⟩
    · have old : s.tasks = s.tasks.take i ++ s.tasks[i] :: s.tasks.drop (i + 1) := by
        rw [← List.drop_eq_getElem_cons bound, List.take_append_drop]
      have new : s.tasks.set i (step s.state s.tasks[i]).2 =
          s.tasks.take i ++ (step s.state s.tasks[i]).2 :: s.tasks.drop (i + 1) := by
        rw [List.set_eq_take_append_cons_drop, if_pos bound]
      have before := filterMap_middle_perm writes s.tasks[i] (s.tasks.take i) (s.tasks.drop (i + 1))
      have after := filterMap_middle_perm writes (step s.state s.tasks[i]).2 (s.tasks.take i)
        (s.tasks.drop (i + 1))
      rw [← old] at before
      rw [← new, once] at after
      exact (after.append_left _).trans before.symm
    · rw [effect]
      cases writes s.tasks[i] <;> rfl

/-- Behind every run lies the list of what has been written, in the order of the steps. -/
theorem execute_log (once : ∀ x t, writes (step x t).2 = none)
    (effect : ∀ x t, view (step x t).1 = (writes t).elim (view x) (write (view x)))
    (s : Shared σ τ) (schedule : List Nat) : ∃ log,
      (log ++ (s.execute step schedule).tasks.filterMap writes).Perm (s.tasks.filterMap writes) ∧
        view (s.execute step schedule).state = log.foldl write (view s.state) := by
  induction schedule generalizing s with
  | nil => exact ⟨[], .refl _, rfl⟩
  | cons i schedule ih =>
    obtain ⟨first, perm, state⟩ := advance_log once effect s i
    obtain ⟨rest, perm', state'⟩ := ih (s.advance step i)
    refine ⟨first ++ rest, ?_, ?_⟩
    · rw [List.append_assoc]
      exact (perm'.append_left first).trans perm
    · rw [List.foldl_append, ← state]
      exact state'

end Log

section Simulation

variable {σ' : Type w} {τ' : Type x} {step' : σ' → τ' → σ' × τ'}

def view (state : σ → σ') (task : τ → τ') (s : Shared σ τ) : Shared σ' τ' :=
  ⟨state s.state, s.tasks.map task⟩

/-- If each step is a step of the coarser tasks, each run is one of theirs with the same schedule. -/
theorem execute_map {state : σ → σ'} {task : τ → τ'}
    (follows : ∀ x t, (state (step x t).1, task (step x t).2) = step' (state x) (task t))
    (s : Shared σ τ) (schedule : List Nat) :
    view state task (s.execute step schedule) = (view state task s).execute step' schedule := by
  induction schedule generalizing s with
  | nil => rfl
  | cons i schedule ih =>
    have next : view state task (s.advance step i) = (view state task s).advance step' i := by
      cases found : s.tasks[i]? with
      | none =>
        have absent : (view state task s).tasks[i]? = none := by simp [view, found]
        rw [advance_of_none found, advance_of_none absent]
      | some t =>
        have there : (view state task s).tasks[i]? = some (task t) := by simp [view, found]
        rw [advance_of_task found, advance_of_task there, view, List.map_set]
        exact congrArg (fun p : σ' × τ' => (⟨p.1, (s.tasks.map task).set i p.2⟩ : Shared σ' τ'))
          (follows s.state t)
    rw [execute_cons, ih, next, execute_cons]

/-- If each step is a step of the coarser tasks or leaves them as they are, each run is one
of theirs. -/
theorem execute_view {state : σ → σ'} {task : τ → τ'}
    (follows : ∀ x t, (state (step x t).1, task (step x t).2) = step' (state x) (task t) ∨
      (state (step x t).1, task (step x t).2) = (state x, task t))
    (s : Shared σ τ) (schedule : List Nat) : ∃ schedule',
      view state task (s.execute step schedule) = (view state task s).execute step' schedule' := by
  induction schedule generalizing s with
  | nil => exact ⟨[], rfl⟩
  | cons i schedule ih =>
    obtain ⟨rest, run⟩ := ih (s.advance step i)
    cases found : s.tasks[i]? with
    | none =>
      rw [advance_of_none found] at run
      refine ⟨rest, ?_⟩
      rw [execute_cons, advance_of_none found, run]
    | some t =>
      have there : (view state task s).tasks[i]? = some (task t) := by simp [view, found]
      have next : view state task (s.advance step i) =
          ⟨state (step s.state t).1, (s.tasks.map task).set i (task (step s.state t).2)⟩ := by
        rw [advance_of_task found, view, List.map_set]
      rcases follows s.state t with moves | stays
      · have next' : (view state task s).advance step' i = view state task (s.advance step i) := by
          rw [advance_of_task there, next]
          exact congrArg (fun p : σ' × τ' => (⟨p.1, (s.tasks.map task).set i p.2⟩ : Shared σ' τ'))
            moves.symm
        exact ⟨i :: rest, by rw [execute_cons, run, execute_cons, next']⟩
      · obtain ⟨state', task'⟩ := Prod.mk.inj stays
        have same : (s.tasks.map task).set i (task t) = s.tasks.map task := by
          obtain ⟨bound, rfl⟩ := List.getElem?_eq_some_iff.mp found
          rw [← List.map_set, List.set_getElem_self]
        refine ⟨rest, ?_⟩
        rw [execute_cons, run, next, state', task', same, view]

end Simulation

end Inventory.Shared
