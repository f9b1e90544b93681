/-! Tasks that work on one state. The state is locked for a single step only, so the steps of
different tasks come in any order. -/
namespace Inventory

structure Shared (σ : Type u) (τ : Type v) where
  state : σ
  tasks : List τ
  deriving DecidableEq, Repr

namespace Shared

variable {σ : Type u} {τ : Type v} (step : σ → τ → σ × τ)

/-- One step of the task at `i`, if it is there. A step says what is left of its task. -/
def advance (s : Shared σ τ) (i : Nat) : Shared σ τ :=
  match s.tasks[i]? with
  | none => s
  | some task => ⟨(step s.state task).1, s.tasks.set i (step s.state task).2⟩

/-- A schedule names the task of each step. -/
def execute (s : Shared σ τ) (schedule : List Nat) : Shared σ τ := schedule.foldl (advance step) s

end Shared

end Inventory
