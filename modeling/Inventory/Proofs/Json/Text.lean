import Inventory.Json.Printer
import Inventory.Json.Reader
import Mathlib.Tactic.SplitIfs

/-! A quoted text is read back as that text. -/
namespace Inventory.Json

variable {c : Char} {n : Nat}

theorem hexValue?_hexDigit (small : n < 16) : hexValue? (hexDigit n) = some n := by
  revert n
  decide

/-- A control character by its number. -/
theorem unit?_hexDigits (small : n < 32) (rest : List Char) :
    unit? ('0' :: '0' :: hexDigit (n / 16) :: hexDigit (n % 16) :: rest) = some (n, rest) := by
  have zero : hexValue? '0' = some 0 := rfl
  have high : hexValue? (hexDigit (n / 16)) = some (n / 16) := hexValue?_hexDigit (by omega)
  have low : hexValue? (hexDigit (n % 16)) = some (n % 16) := hexValue?_hexDigit (by omega)
  have whole : n / 16 * 16 + n % 16 = n := by omega
  simp [unit?, zero, high, low, whole]

/-- One character is one step of the reader, whether or not it is escaped. -/
theorem text?_escapeChar (fuel : Nat) (read : List Char) (c : Char) (rest : List Char) :
    text? (fuel + 1) (some read) ((escapeChar c).toList ++ rest) =
      text? fuel (some (c :: read)) rest := by
  unfold escapeChar
  split
  next quote => subst quote; rfl
  split
  next backslash => subst backslash; rfl
  split
  next newline => subst newline; rfl
  split
  next carriageReturn => subst carriageReturn; rfl
  split
  next tab => subst tab; rfl
  split
  next backspace =>
    rw [← Char.ofNat_toNat c, backspace]
    rfl
  split
  next formFeed =>
    rw [← Char.ofNat_toNat c, formFeed]
    rfl
  split
  next control =>
    have split : ("\\u00" ++ String.ofList
        [hexDigit (c.toNat / 16), hexDigit (c.toNat % 16)]).toList ++ rest = '\\' :: 'u' ::
          ('0' :: '0' :: hexDigit (c.toNat / 16) :: hexDigit (c.toNat % 16) :: rest) := by
      simp
    have low : isLowSurrogate c.toNat = false := by simp [isLowSurrogate]; omega
    have high : isHighSurrogate c.toNat = false := by simp [isHighSurrogate]; omega
    rw [split, text?]
    simp [unit?_hexDigits control, low, high]
  next quote backslash _ _ _ _ _ shown =>
    rw [Char.toString_eq_singleton]
    simp [text?, quote, backslash, shown]

theorem text?_escaped (cs read rest : List Char) {fuel : Nat} (enough : cs.length < fuel) :
    text? fuel (some read) (cs.flatMap (fun c => (escapeChar c).toList) ++ '"' :: rest) =
      some (some (String.ofList (read.reverse ++ cs)), rest) := by
  induction cs generalizing fuel read with
  | nil =>
    obtain ⟨fuel, rfl⟩ : ∃ k, fuel = k + 1 := ⟨fuel - 1, by simp at enough; omega⟩
    simp [text?]
  | cons c cs ih =>
    obtain ⟨fuel, rfl⟩ : ∃ k, fuel = k + 1 := ⟨fuel - 1, by simp at enough; omega⟩
    rw [List.flatMap_cons, List.append_assoc, text?_escapeChar, ih _ (by simpa using enough)]
    simp

theorem length_escapeChar_pos (c : Char) : 0 < (escapeChar c).toList.length := by
  unfold escapeChar
  split_ifs <;> simp

theorem length_le_escaped (cs : List Char) :
    cs.length ≤ (cs.flatMap (fun c => (escapeChar c).toList)).length := by
  induction cs with
  | nil => exact Nat.le_refl 0
  | cons c cs ih =>
    have here := length_escapeChar_pos c
    rw [List.flatMap_cons, List.length_append, List.length_cons]
    omega

/-- A quoted text, and what the reader makes of it from behind the opening quote. -/
theorem text?_quote (s : String) (rest : List Char) : ∃ inner,
    (quote s).toList ++ rest = '"' :: inner ∧
      text? (inner.length + 1) (some []) inner = some (some s, rest) := by
  refine ⟨s.toList.flatMap (fun c => (escapeChar c).toList) ++ '"' :: rest, ?_, ?_⟩
  · simp [quote, String.toList_join, List.flatMap_map]
  · have enough := length_le_escaped s.toList
    rw [text?_escaped s.toList [] rest (by rw [List.length_append]; omega)]
    simp

end Inventory.Json
