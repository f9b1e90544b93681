import Inventory.Proofs.Text.Trim
import Inventory.Text.Lowercase

/-! Lower case and blanks. No letter becomes a blank and no blank a letter, and a space keeps the
words on its two sides from seeing each other: the lower case of a text is that of its parts. -/
namespace Inventory.Text

variable {c : Char} {before s u v : List Char}

def apart (first last : Int) : Bool :=
  blankRanges.all fun b => last < (b.1 : Int) || (b.2 : Int) < first

theorem isBlankChar_of_apart {first last : Int} (away : apart first last = true)
    (low : first ≤ c.toNat) (high : c.toNat ≤ last) : isBlankChar c = false := by
  rw [isBlankChar, inRanges, List.any_eq_false]
  intro b member
  have side := List.all_eq_true.mp away b member
  simp only [Bool.or_eq_true, decide_eq_true_eq] at side
  simp only [Bool.and_eq_true, decide_eq_true_eq, not_and]
  omega

theorem isBlankChar_ofNat {n : Nat} {first last : Int} (away : apart first last = true)
    (low : first ≤ n) (high : n ≤ last) : isBlankChar (Char.ofNat n) = false := by
  by_cases valid : n.isValidChar
  · have same : (Char.ofNat n).toNat = n := by
      rw [Char.ofNat, dif_pos valid]
      rfl
    exact isBlankChar_of_apart away (by omega) (by omega)
  · have zero : (Char.ofNat n).toNat = 0 := by
      rw [Char.ofNat, dif_neg valid]
      rfl
    exact isBlankChar_of_apart (show apart 0 0 = true by decide) (by omega) (by omega)

theorem apart_of_mem_lowerRanges : ∀ r ∈ lowerRanges, apart r.first r.last = true ∧
    apart (r.first + r.offset) (r.last + r.offset) = true := by
  decide +kernel

/-- Only what is not blank has another lower case, and that is not blank either. -/
theorem lowerChar_eq_or (c : Char) :
    lowerChar c = c ∨ isBlankChar c = false ∧ isBlankChar (lowerChar c) = false := by
  by_cases ascii : c.toNat < 0x80
  · have all : ∀ n < 0x80, lowerChar (Char.ofNat n) = Char.ofNat n ∨
        isBlankChar (Char.ofNat n) = false ∧ isBlankChar (lowerChar (Char.ofNat n)) = false := by
      decide +kernel
    simpa using all c.toNat ascii
  · rw [lowerChar, if_neg ascii]
    dsimp only
    split
    next r found =>
      have inside := List.find?_some found
      simp only [Bool.and_eq_true, decide_eq_true_eq] at inside
      obtain ⟨away, away'⟩ := apart_of_mem_lowerRanges r (List.mem_of_find?_eq_some found)
      refine .inr ⟨isBlankChar_of_apart away (by omega) (by omega), ?_⟩
      by_cases negative : (c.toNat : Int) + r.offset < 0
      · have zero : ((c.toNat : Int) + r.offset).toNat = 0 := by omega
        rw [zero]
        decide
      · exact isBlankChar_ofNat away' (by omega) (by omega)
    next => exact .inl rfl

theorem lowerChar_of_blank (blank : isBlankChar c = true) : lowerChar c = c :=
  (lowerChar_eq_or c).resolve_right fun other => by simp [blank] at other

theorem isBlankChar_lowerChar (c : Char) : isBlankChar (lowerChar c) = isBlankChar c := by
  rcases lowerChar_eq_or c with same | ⟨shown, shown'⟩
  · rw [same]
  · rw [shown, shown']

/-- In any context a blank stays as it is, and what is not blank becomes nothing that is. -/
theorem lowerInContext_of_blank (blank : isBlankChar c = true) (before after : List Char) :
    lowerInContext before c after = [c] := by
  have noSigma : c ≠ 'Σ' := by
    rintro rfl
    exact absurd blank (by decide)
  have noDot : c ≠ 'İ' := by
    rintro rfl
    exact absurd blank (by decide)
  rw [lowerInContext, if_neg noSigma, if_neg noDot, lowerChar_of_blank blank]

theorem not_blank_of_mem_lowerInContext (shown : isBlankChar c = false) {before after : List Char}
    {d : Char} (member : d ∈ lowerInContext before c after) : isBlankChar d = false := by
  unfold lowerInContext at member
  split at member
  · split at member
    · rw [List.mem_singleton.mp member]
      decide
    · rw [List.mem_singleton.mp member]
      decide
  · split at member
    · rcases List.mem_cons.mp member with rfl | mark
      · decide
      · rw [List.mem_singleton.mp mark]
        decide
    · rw [List.mem_singleton.mp member, isBlankChar_lowerChar, shown]

theorem lowerInContext_ne_nil (before : List Char) (c : Char) (after : List Char) :
    lowerInContext before c after ≠ [] := by
  unfold lowerInContext
  split
  · split <;> simp
  · split <;> simp

theorem space_not_mem_lowerInContext (other : c ≠ ' ') (before after : List Char) :
    ' ' ∉ lowerInContext before c after := by
  intro member
  cases blank : isBlankChar c with
  | true =>
    rw [lowerInContext_of_blank blank] at member
    exact other (List.mem_singleton.mp member).symm
  | false => exact absurd (not_blank_of_mem_lowerInContext blank member) (by decide)

theorem lowercase_ne_empty {s : String} (h : s ≠ "") : lowercase s ≠ "" := by
  intro empty
  cases letters : s.toList with
  | nil => exact h (String.toList_inj.mp (letters.trans String.toList_empty.symm))
  | cons c rest =>
    have none := congrArg String.toList empty
    simp [lowercase, letters, lowerAfter, lowerInContext_ne_nil] at none

theorem meetsCased_append_space (s t : List Char) : meetsCased (s ++ ' ' :: t) = meetsCased s := by
  have visible : isCaseIgnorable ' ' = false := by decide +kernel
  have uncased : isCased ' ' = false := by decide +kernel
  induction s with
  | nil => simp [meetsCased, visible, uncased]
  | cons c s ih =>
    by_cases ignored : isCaseIgnorable c = true
    · simpa [meetsCased, ignored] using ih
    · simp [meetsCased, ignored]

theorem lowerInContext_before (before before' after : List Char) (c : Char) :
    lowerInContext (before ++ ' ' :: before') c after = lowerInContext before c after := by
  rw [lowerInContext, meetsCased_append_space, lowerInContext]

theorem lowerInContext_after (before after after' : List Char) (c : Char) :
    lowerInContext before c (after ++ ' ' :: after') = lowerInContext before c after := by
  rw [lowerInContext, meetsCased_append_space, lowerInContext]

theorem lowerAfter_before (before before' s : List Char) :
    lowerAfter (before ++ ' ' :: before') s = lowerAfter before s := by
  induction s generalizing before with
  | nil => rfl
  | cons c s ih => rw [lowerAfter, lowerInContext_before, ← List.cons_append, ih, lowerAfter]

def lower (s : List Char) : List Char := lowerAfter [] s

theorem lowercase_eq (s : String) : lowercase s = String.ofList (lower s.toList) := rfl

theorem lowerAfter_space (before s : List Char) :
    lowerAfter before (' ' :: s) = ' ' :: lower s := by
  have space : lowerInContext before ' ' s = [' '] := lowerInContext_of_blank (by decide) before s
  have alone : lowerAfter (' ' :: before) s = lower s := lowerAfter_before [] before s
  rw [lowerAfter, space, alone, List.singleton_append]

theorem lowerAfter_append_space (before u v : List Char) :
    lowerAfter before (u ++ ' ' :: v) = lowerAfter before u ++ ' ' :: lower v := by
  induction u generalizing before with
  | nil => exact lowerAfter_space before v
  | cons c u ih =>
    rw [List.cons_append, lowerAfter, lowerInContext_after, ih, lowerAfter, List.append_assoc]

theorem lower_append_space (u v : List Char) : lower (u ++ ' ' :: v) = lower u ++ ' ' :: lower v :=
  lowerAfter_append_space [] u v

/-- Each space of the lower case is one of the text. -/
theorem exists_of_lowerAfter (cut : lowerAfter before s = u ++ ' ' :: v) :
    ∃ u' v', s = u' ++ ' ' :: v' ∧ lowerAfter before u' = u ∧ lower v' = v := by
  induction s generalizing before u with
  | nil => simp [lowerAfter] at cut
  | cons c s ih =>
    by_cases space : c = ' '
    · subst space
      rw [lowerAfter_space] at cut
      cases u with
      | nil => exact ⟨[], s, rfl, rfl, (List.cons.inj cut).2⟩
      | cons d u =>
        obtain ⟨rfl, rest⟩ := List.cons.inj cut
        have behind : lowerAfter [] s = u ++ ' ' :: v := rest
        obtain ⟨u', v', rfl, same, same'⟩ := ih behind
        exact ⟨' ' :: u', v', rfl, by rw [lowerAfter_space, lower, same], same'⟩
    · rw [lowerAfter] at cut
      obtain ⟨a, rfl, behind⟩ : ∃ a, u = lowerInContext before c s ++ a ∧
          lowerAfter (c :: before) s = a ++ ' ' :: v := by
        rcases List.append_eq_append_iff.mp cut with whole | ⟨b, here, behind⟩
        · exact whole
        · cases b with
          | nil => exact ⟨[], by rw [here, List.append_nil, List.append_nil], behind.symm⟩
          | cons d b =>
            obtain ⟨rfl, -⟩ := List.cons.inj behind
            exact absurd (here ▸ by simp) (space_not_mem_lowerInContext space before s)
      obtain ⟨u', v', rfl, same, same'⟩ := ih behind
      exact ⟨c :: u', v', rfl, by rw [lowerAfter, same, lowerInContext_after], same'⟩

theorem blanks_lowerAfter_iff : Blanks (lowerAfter before s) ↔ Blanks s := by
  induction s generalizing before with
  | nil => simp [lowerAfter]
  | cons c s ih =>
    rw [lowerAfter, Blanks, List.forall_mem_append, Blanks, List.forall_mem_cons]
    refine and_congr ?_ ih
    cases blank : isBlankChar c with
    | true => simpa [lowerInContext_of_blank blank] using blank
    | false =>
      obtain ⟨d, member⟩ := List.exists_mem_of_ne_nil _ (lowerInContext_ne_nil before c s)
      have shown := not_blank_of_mem_lowerInContext blank member
      exact iff_of_false (fun all => by simp [all d member] at shown) (by decide)

theorem blanks_lower_iff : Blanks (lower s) ↔ Blanks s := blanks_lowerAfter_iff

end Inventory.Text
