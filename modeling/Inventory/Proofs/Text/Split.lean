import Inventory.Text.Split

/-! Literals at the ends of a text, and the pieces of a text: cutting goes on behind a separator as
if the text began there, and no separator is in a piece. -/
namespace Inventory.Text

variable {p : Char → Bool} {s : List Char} {piece : List Char} {c : Char}

theorem dropLiteral?_eq_some_iff {lit rest : List Char} :
    dropLiteral? lit s = some rest ↔ s = lit ++ rest := by
  constructor
  · exact eq_append_of_dropLiteral?
  · rintro rfl
    induction lit with
    | nil => rfl
    | cons l lit ih => simpa [dropLiteral?] using ih

theorem dropLiteralEnd?_eq_some_iff {lit before : List Char} :
    dropLiteralEnd? lit s = some before ↔ s = before ++ lit := by
  simp only [dropLiteralEnd?, Option.map_eq_some_iff, dropLiteral?_eq_some_iff]
  constructor
  · rintro ⟨rest, reversed, rfl⟩
    simpa using congrArg List.reverse reversed
  · rintro rfl
    exact ⟨before.reverse, by simp, by simp⟩

theorem splitWhen_ne_nil (p : Char → Bool) (s : List Char) : splitWhen p s ≠ [] := by
  cases s with
  | nil => simp [splitWhen]
  | cons c s =>
    unfold splitWhen
    split
    · simp
    · split <;> simp

theorem splitWhen_cons_of_false (kept : p c = false) (s : List Char) : ∃ piece pieces,
    splitWhen p s = piece :: pieces ∧ splitWhen p (c :: s) = (c :: piece) :: pieces := by
  obtain ⟨piece, pieces, rest⟩ := List.exists_cons_of_ne_nil (splitWhen_ne_nil p s)
  exact ⟨piece, pieces, rest, by simp [splitWhen, kept, rest]⟩

theorem splitWhen_append_cons (sep : p c = true) (s t : List Char) :
    splitWhen p (s ++ c :: t) = splitWhen p s ++ splitWhen p t := by
  induction s with
  | nil => simp [splitWhen, sep]
  | cons d s ih =>
    cases kept : p d with
    | true => simp [splitWhen, kept, ih]
    | false =>
      obtain ⟨piece, pieces, rest, whole⟩ := splitWhen_cons_of_false kept s
      obtain ⟨piece', pieces', rest', whole'⟩ := splitWhen_cons_of_false kept (s ++ c :: t)
      rw [rest', rest, List.cons_append, List.cons.injEq] at ih
      rw [List.cons_append, whole', whole, ih.1, ih.2, List.cons_append]

theorem splitAt_append_cons (sep : Char) (s t : List Char) :
    splitAt sep (s ++ sep :: t) = splitAt sep s ++ splitAt sep t :=
  splitWhen_append_cons (p := (· == sep)) (beq_self_eq_true sep) s t

theorem splitWhen_of_forall (kept : ∀ c ∈ s, p c = false) : splitWhen p s = [s] := by
  induction s with
  | nil => rfl
  | cons c s ih =>
    have rest := ih fun d member => kept d (List.mem_cons_of_mem _ member)
    simp [splitWhen, kept c List.mem_cons_self, rest]

theorem eq_of_splitWhen_eq_singleton (single : splitWhen p s = [piece]) : s = piece := by
  induction s generalizing piece with
  | nil => simpa [splitWhen] using single
  | cons c s ih =>
    cases kept : p c with
    | true => simp [splitWhen, kept, splitWhen_ne_nil] at single
    | false =>
      obtain ⟨first, pieces, rest, whole⟩ := splitWhen_cons_of_false kept s
      obtain ⟨rfl, rfl⟩ := List.cons.inj (whole.symm.trans single)
      rw [ih rest]

theorem mem_of_mem_splitWhen (member : piece ∈ splitWhen p s) (among : c ∈ piece) : c ∈ s := by
  induction s generalizing piece with
  | nil => simp_all [splitWhen]
  | cons d s ih =>
    cases kept : p d with
    | true =>
      simp only [splitWhen, kept, if_true, List.mem_cons] at member
      rcases member with rfl | member
      · cases among
      · exact List.mem_cons_of_mem _ (ih member among)
    | false =>
      obtain ⟨first, pieces, rest, whole⟩ := splitWhen_cons_of_false kept s
      rw [whole] at member
      rcases List.mem_cons.mp member with rfl | later
      · rcases List.mem_cons.mp among with rfl | inner
        · exact List.mem_cons_self
        · exact List.mem_cons_of_mem _ (ih (rest ▸ List.mem_cons_self) inner)
      · exact List.mem_cons_of_mem _ (ih (rest ▸ List.mem_cons_of_mem _ later) among)

theorem exists_mem_splitWhen (member : c ∈ s) (kept : p c = false) :
    ∃ piece ∈ splitWhen p s, c ∈ piece := by
  induction s with
  | nil => cases member
  | cons d s ih =>
    cases sep : p d with
    | true =>
      rcases List.mem_cons.mp member with rfl | later
      · exact absurd (kept.symm.trans sep) (by decide)
      · obtain ⟨piece, among, inside⟩ := ih later
        exact ⟨piece, by simp [splitWhen, sep, among], inside⟩
    | false =>
      obtain ⟨first, pieces, rest, whole⟩ := splitWhen_cons_of_false sep s
      rw [whole]
      rcases List.mem_cons.mp member with rfl | later
      · exact ⟨c :: first, List.mem_cons_self, List.mem_cons_self⟩
      · obtain ⟨piece, among, inside⟩ := ih later
        rcases List.mem_cons.mp (rest ▸ among) with rfl | behind
        · exact ⟨d :: piece, List.mem_cons_self, List.mem_cons_of_mem _ inside⟩
        · exact ⟨piece, List.mem_cons_of_mem _ behind, inside⟩

theorem eq_false_of_mem_splitWhen (member : piece ∈ splitWhen p s) (among : c ∈ piece) :
    p c = false := by
  induction s generalizing piece with
  | nil => simp_all [splitWhen]
  | cons d s ih =>
    cases kept : p d with
    | true =>
      simp only [splitWhen, kept, if_true, List.mem_cons] at member
      rcases member with rfl | member
      · cases among
      · exact ih member among
    | false =>
      obtain ⟨first, pieces, rest, whole⟩ := splitWhen_cons_of_false kept s
      rw [whole] at member
      rcases List.mem_cons.mp member with rfl | later
      · rcases List.mem_cons.mp among with rfl | inner
        · exact kept
        · exact ih (rest ▸ List.mem_cons_self) inner
      · exact ih (rest ▸ List.mem_cons_of_mem _ later) among

end Inventory.Text
