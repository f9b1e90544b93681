import Inventory.Decimal

/-! Digits and the numbers they stand for. -/
namespace Inventory.Decimal

variable {ds : List Char} {n : Nat}

def Digits (ds : List Char) : Prop := ∀ c ∈ ds, c.isDigit = true

theorem natOfDigits_eq (ds : List Char) : natOfDigits ds = Nat.ofDigitChars 10 ds 0 := by
  rw [Nat.ofDigitChars_eq_foldl, natOfDigits]
  simp only [Nat.mul_comm]

theorem natOfDigits_toDigits (n : Nat) : natOfDigits (Nat.toDigits 10 n) = n := by
  rw [natOfDigits_eq, Nat.ofDigitChars_ten_toDigits]

theorem digits_toDigits (n : Nat) : Digits (Nat.toDigits 10 n) := fun _ member =>
  Nat.isDigit_of_mem_toDigits (by decide) (by decide) member

/-- Zeros in front do not count. -/
theorem natOfDigits_replicate_append (k : Nat) (ds : List Char) :
    natOfDigits (List.replicate k '0' ++ ds) = natOfDigits ds := by
  rw [natOfDigits_eq, natOfDigits_eq, Nat.ofDigitChars_append, Nat.ofDigitChars_replicate_zero,
    Nat.mul_zero]

theorem natOfDigits_lt (digits : Digits ds) : natOfDigits ds < Nat.pow 10 ds.length := by
  have all : ∀ (ds : List Char) (k : Nat), Digits ds →
      ds.foldl (fun n d => n * 10 + (d.toNat - '0'.toNat)) k < (k + 1) * Nat.pow 10 ds.length := by
    intro ds
    induction ds with
    | nil =>
      intro k _
      change k < (k + 1) * 1
      omega
    | cons d ds ih =>
      intro k digits
      obtain ⟨first, rest⟩ := List.forall_mem_cons.mp digits
      have bounds : 48 ≤ d.toNat ∧ d.toNat ≤ 57 := Char.isDigit_iff_toNat.mp first
      have zero : '0'.toNat = 48 := rfl
      have step : k * 10 + (d.toNat - '0'.toNat) + 1 ≤ (k + 1) * 10 := by omega
      have width : (k + 1) * 10 * Nat.pow 10 ds.length =
          (k + 1) * Nat.pow 10 (d :: ds).length := by
        rw [Nat.mul_assoc, Nat.mul_comm 10]
        rfl
      rw [List.foldl_cons, ← width]
      exact Nat.lt_of_lt_of_le (ih _ rest) (Nat.mul_le_mul_right _ step)
  have below := all ds 0 digits
  rwa [Nat.zero_add, Nat.one_mul] at below

theorem takeWhile_digits (digits : Digits ds) {rest : List Char}
    (stop : rest.takeWhile Char.isDigit = []) : (ds ++ rest).takeWhile Char.isDigit = ds := by
  rw [List.takeWhile_append_of_pos digits, stop, List.append_nil]

/-- No number but zero is written with a zero in front. -/
theorem head?_toDigits_ne (pos : 0 < n) : (Nat.toDigits 10 n).head? ≠ some '0' := by
  induction n using Nat.strongRecOn with
  | ind n ih =>
    by_cases small : n < 10
    · rw [Nat.toDigits_of_lt_base small]
      intro first
      have digit : n.digitChar = '0' := Option.some.inj first
      rw [Nat.digitChar_eq_zero] at digit
      omega
    · have front := ih (n / 10) (by omega) (by omega)
      obtain ⟨d, ds, split⟩ := List.exists_cons_of_ne_nil
        (Nat.toDigits_ne_nil (n := n / 10) (b := 10))
      rw [Nat.toDigits_of_base_le (by decide) (by omega), split]
      rwa [split] at front

end Inventory.Decimal
