import Inventory.Text.Blank
import Mathlib.Data.List.TakeWhile

/-! Trimmed texts. What is cut off is blank, and what is left is blank at neither end: no other part
of a text is so. -/
namespace Inventory.Text

variable {s before after : List Char} {c : Char}

/-- The letters, digits and signs of ASCII are not blank. -/
theorem isBlankChar_eq_false (low : 0x21 ≤ c.toNat) (high : c.toNat ≤ 0x7E) :
    isBlankChar c = false := by
  rw [isBlankChar, inRanges, List.any_eq_false]
  simp only [blankRanges, List.forall_mem_cons, Bool.and_eq_true, decide_eq_true_eq, not_and,
    List.not_mem_nil, false_implies, implies_true, and_true]
  omega

def Blanks (s : List Char) : Prop := ∀ c ∈ s, isBlankChar c = true

structure Trimmed (s : List Char) : Prop where
  first : ∀ c ∈ s.head?, isBlankChar c = false
  last : ∀ c ∈ s.getLast?, isBlankChar c = false

theorem trimmed_of_unbroken (unbroken : ∀ c ∈ s, isBlankChar c = false) : Trimmed s where
  first c member := unbroken c (List.mem_of_mem_head? member)
  last c member := unbroken c (List.mem_of_getLast? member)

theorem exists_trimStart (s : List Char) : ∃ before, Blanks before ∧ s = before ++ trimStart s ∧
    ∀ c ∈ (trimStart s).head?, isBlankChar c = false := by
  refine ⟨s.takeWhile isBlankChar, fun c => List.mem_takeWhile_imp, ?_, ?_⟩
  · exact List.takeWhile_append_dropWhile.symm
  · intro c first
    have stop := List.head?_dropWhile_not isBlankChar s
    rw [trimStart, Option.mem_def] at first
    rw [first] at stop
    simpa using stop

theorem trimEnd_eq (s : List Char) : trimEnd s = (trimStart s.reverse).reverse := rfl

theorem exists_trimEnd (s : List Char) : ∃ after, Blanks after ∧ s = trimEnd s ++ after ∧
    ∀ c ∈ (trimEnd s).getLast?, isBlankChar c = false := by
  obtain ⟨before, blanks, whole, first⟩ := exists_trimStart s.reverse
  refine ⟨before.reverse, fun c member => blanks c (List.mem_reverse.mp member), ?_, ?_⟩
  · have turned := congrArg List.reverse whole
    rwa [List.reverse_reverse, List.reverse_append] at turned
  · rw [trimEnd_eq, List.getLast?_reverse]
    exact first

theorem exists_trim (s : List Char) : ∃ before after, Blanks before ∧ Blanks after ∧
    s = before ++ (trim s ++ after) ∧ Trimmed (trim s) := by
  obtain ⟨before, blanks, front, first⟩ := exists_trimStart s
  obtain ⟨after, blanks', back, last⟩ := exists_trimEnd (trimStart s)
  refine ⟨before, after, blanks, blanks', ?_, ⟨fun c member => ?_, last⟩⟩
  · exact front.trans (congrArg (before ++ ·) back)
  · have start : (trimStart s).head? = some c := by
      rw [back, List.head?_append, show (trimEnd (trimStart s)).head? = some c from member]
      rfl
    exact first c start

theorem trimmed_trim (s : List Char) : Trimmed (trim s) := by
  obtain ⟨-, -, -, -, -, trimmed⟩ := exists_trim s
  exact trimmed

theorem trimStart_append (blanks : Blanks before) (first : ∀ c ∈ s.head?, isBlankChar c = false) :
    trimStart (before ++ s) = s := by
  rw [trimStart, List.dropWhile_append_of_pos blanks]
  cases s with
  | nil => rfl
  | cons c s => exact List.dropWhile_cons_of_neg (by simp [first c rfl])

theorem trimEnd_append (blanks : Blanks after) (last : ∀ c ∈ s.getLast?, isBlankChar c = false) :
    trimEnd (s ++ after) = s := by
  have turned : Blanks after.reverse := fun c member => blanks c (List.mem_reverse.mp member)
  rw [trimEnd_eq, List.reverse_append, trimStart_append turned, List.reverse_reverse]
  rwa [List.head?_reverse]

theorem trim_append (blanks : Blanks before) (trimmed : Trimmed s) (blanks' : Blanks after) :
    trim (before ++ (s ++ after)) = s := by
  cases s with
  | nil =>
    have all : Blanks (before ++ after) := List.forall_mem_append.mpr ⟨blanks, blanks'⟩
    rw [List.nil_append, trim, trimStart, List.dropWhile_eq_nil_iff.mpr all]
    rfl
  | cons c s =>
    rw [trim, trimStart_append blanks, trimEnd_append blanks' trimmed.last]
    exact trimmed.first

theorem blanks_nil : Blanks [] := by simp [Blanks]

theorem trim_append_left (blanks : Blanks before) (trimmed : Trimmed s) :
    trim (before ++ s) = s := by
  simpa using trim_append blanks trimmed blanks_nil

theorem trim_append_right (trimmed : Trimmed s) (blanks : Blanks after) : trim (s ++ after) = s :=
  trim_append blanks_nil trimmed blanks

theorem Trimmed.eq_nil_of_front (trimmed : Trimmed (before ++ s)) (blanks : Blanks before) :
    before = [] := by
  cases before with
  | nil => rfl
  | cons c before =>
    have shown := trimmed.first c rfl
    exact absurd (shown.symm.trans (blanks c List.mem_cons_self)) (by decide)

theorem Trimmed.eq_nil_of_back (trimmed : Trimmed (s ++ after)) (blanks : Blanks after) :
    after = [] := by
  rcases List.eq_nil_or_concat after with rfl | ⟨rest, c, rfl⟩
  · rfl
  · have shown := trimmed.last c (by simp)
    exact absurd (shown.symm.trans (blanks c (by simp))) (by decide)

/-- Trimmed texts are blank only if there is nothing left of them. -/
theorem isBlank_ofList_of_trimmed (trimmed : Trimmed s) (some : s ≠ []) :
    isBlank (String.ofList s) = false := by
  obtain ⟨c, rest, rfl⟩ := List.exists_cons_of_ne_nil some
  rw [isBlank, String.toList_ofList, List.all_cons, trimmed.first c rfl, Bool.false_and]

end Inventory.Text
