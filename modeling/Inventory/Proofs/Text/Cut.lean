import Inventory.Proofs.Wildcard

/-! Which of several cuts at a literal is made. The first one leaves the least in front of it and
the last one leaves the least behind it, and there is no other that does. -/
namespace Inventory.Text

variable {lit s before after : List Char} {c : Char}

theorem cutAt?_eq_some_iff : cutAt? lit s = some (before, after) ↔
    s = before ++ (lit ++ after) ∧ ∀ b a, s = b ++ (lit ++ a) → before.length ≤ b.length := by
  constructor
  · intro cut
    refine ⟨eq_append_of_cutAt? cut, ?_⟩
    rintro b a rfl
    obtain ⟨front, gap, first⟩ := Wildcard.exists_cutAt?_append lit b a
    obtain ⟨rfl, rfl⟩ := Prod.mk.inj (Option.some.inj (cut.symm.trans first))
    have length := congrArg List.length (eq_append_of_cutAt? first)
    simp only [List.length_append] at length
    omega
  · rintro ⟨rfl, least⟩
    obtain ⟨front, gap, first⟩ := Wildcard.exists_cutAt?_append lit before after
    have whole := eq_append_of_cutAt? first
    have length := congrArg List.length whole
    simp only [List.length_append] at length
    have bound := least front (gap ++ after) whole
    obtain rfl : gap = [] := List.length_eq_zero_iff.mp (by omega)
    obtain rfl : before = front := List.append_cancel_right whole
    exact first

theorem cutAt?_eq_none_iff : cutAt? lit s = none ↔ ¬ lit <:+: s := by
  rw [← Wildcard.containsLiteral_iff, containsLiteral]
  cases cutAt? lit s <;> simp

/-- The first character of a literal is enough to tell that there is no earlier one. -/
theorem cutAt?_append_of_not_mem (absent : c ∉ before) (lit after : List Char) :
    cutAt? (c :: lit) (before ++ c :: (lit ++ after)) = some (before, after) := by
  induction before with
  | nil =>
    have start : dropLiteral? (c :: lit) (c :: (lit ++ after)) = some after :=
      dropLiteral?_eq_some_iff.mpr rfl
    rw [List.nil_append, cutAt?, start]
  | cons d before ih =>
    rw [List.mem_cons, not_or] at absent
    have other : dropLiteral? (c :: lit) (d :: (before ++ c :: (lit ++ after))) = none :=
      if_neg absent.1
    rw [List.cons_append, cutAt?, other, ih absent.2]
    rfl

theorem upTo_append_of_not_mem (absent : c ∉ before) (lit after : List Char) :
    upTo (c :: lit) (before ++ c :: (lit ++ after)) = before := by
  rw [upTo, cutAt?_append_of_not_mem absent]
  rfl

theorem upTo_of_not_mem (absent : c ∉ s) (lit : List Char) : upTo (c :: lit) s = s := by
  have none : cutAt? (c :: lit) s = none :=
    cutAt?_eq_none_iff.mpr fun inside => absent (inside.subset List.mem_cons_self)
  rw [upTo, none]
  rfl

theorem prefix_upTo (lit s : List Char) : upTo lit s <+: s := by
  rw [upTo]
  cases cut : cutAt? lit s with
  | none => exact List.prefix_rfl
  | some p => exact ⟨_, (eq_append_of_cutAt? cut).symm⟩

theorem cutAtLast?_eq_some_iff_reverse : cutAtLast? lit s = some (before, after) ↔
    cutAt? lit.reverse s.reverse = some (after.reverse, before.reverse) := by
  rw [cutAtLast?, Option.map_eq_some_iff]
  constructor
  · rintro ⟨⟨a, b⟩, cut, same⟩
    obtain ⟨rfl, rfl⟩ := Prod.mk.inj same
    rw [cut, List.reverse_reverse, List.reverse_reverse]
  · intro cut
    exact ⟨_, cut, by rw [List.reverse_reverse, List.reverse_reverse]⟩

theorem cutAtLast?_eq_some_iff : cutAtLast? lit s = some (before, after) ↔
    s = before ++ (lit ++ after) ∧ ∀ b a, s = b ++ (lit ++ a) → after.length ≤ a.length := by
  have turn (b a : List Char) :
      s.reverse = a.reverse ++ (lit.reverse ++ b.reverse) ↔ s = b ++ (lit ++ a) := by
    rw [← List.reverse_inj]
    simp
  rw [cutAtLast?_eq_some_iff_reverse, cutAt?_eq_some_iff, turn]
  refine and_congr_right fun _ => ⟨fun least b a whole => ?_, fun least a b whole => ?_⟩
  · simpa using least a.reverse b.reverse ((turn b a).mpr whole)
  · rw [← List.reverse_reverse a, ← List.reverse_reverse b] at whole
    simpa using least _ _ ((turn _ _).mp whole)

theorem cutAtLast?_eq_none_iff : cutAtLast? lit s = none ↔ ¬ lit <:+: s := by
  rw [cutAtLast?, Option.map_eq_none_iff, cutAt?_eq_none_iff, List.reverse_infix]

end Inventory.Text
