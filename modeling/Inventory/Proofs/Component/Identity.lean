import Inventory.Component.Basic
import Inventory.Proofs.Text.Lowercase

/-! Ids of components. -/
namespace Inventory

/-- No id is empty, whatever the identity fields are. -/
theorem Component.id_ne_empty (c : Component) : c.id ≠ "" := by
  have text : " ".intercalate (c.identity.map (·.2)) ++ " - " ++ c.ecosystem.label ≠ "" := by
    simp
  cases c with
  | pip => exact Text.lowercase_ne_empty text
  | _ => exact text

/-- A component passes its check exactly if no identity field is blank. -/
theorem Component.toOption_checked_eq_some_iff {c c' : Component} :
    c.checked.toOption = some c' ↔ (∀ f ∈ c.identity, Text.isBlank f.2 = false) ∧ c = c' := by
  rw [checked]
  cases found : c.identity.find? fun f => Text.isBlank f.2 with
  | none =>
    have shown := List.find?_eq_none.mp found
    simp only [Bool.not_eq_true] at shown
    exact ⟨fun same => ⟨shown, Option.some.inj same⟩, fun ⟨_, same⟩ => congrArg some same⟩
  | some f =>
    refine iff_of_false (by simp [Except.toOption]) fun ⟨shown, _⟩ => ?_
    have blank := List.find?_some found
    exact absurd (blank.symm.trans (shown f (List.mem_of_find?_eq_some found))) (by decide)

end Inventory
