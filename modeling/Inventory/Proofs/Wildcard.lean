import Inventory.Proofs.Text.Split
import Inventory.Wildcard

/-! The texts that a pattern stands for, and that taking the first place at which a part occurs
never misses one of them. -/
namespace Inventory.Wildcard

open Text

/-- `t` is `pattern` with a text of its own, which may be empty, in place of every star. -/
inductive Spells : (pattern t : List Char) → Prop
  | nil : Spells [] []
  | itself {c : Char} {pattern t : List Char} : c ≠ '*' → Spells pattern t →
      Spells (c :: pattern) (c :: t)
  | star {pattern t : List Char} (run : List Char) : Spells pattern t →
      Spells ('*' :: pattern) (run ++ t)

variable {c : Char} {pattern first last part s t : List Char} {parts middle : List (List Char)}

theorem spells_nil : Spells [] t ↔ t = [] := by
  constructor
  · rintro ⟨⟩
    rfl
  · rintro rfl
    exact .nil

theorem spells_cons (itself : c ≠ '*') :
    Spells (c :: pattern) t ↔ ∃ rest, t = c :: rest ∧ Spells pattern rest := by
  constructor
  · rintro (_ | ⟨_, spells⟩ | ⟨_, _⟩)
    · exact ⟨_, rfl, spells⟩
    · exact absurd rfl itself
  · rintro ⟨rest, rfl, spells⟩
    exact .itself itself spells

theorem spells_star :
    Spells ('*' :: pattern) t ↔ ∃ run rest, t = run ++ rest ∧ Spells pattern rest := by
  constructor
  · rintro (_ | ⟨itself, _⟩ | ⟨run, spells⟩)
    · exact absurd rfl itself
    · exact ⟨run, _, rfl, spells⟩
  · rintro ⟨run, rest, rfl, spells⟩
    exact .star run spells

theorem spells_append {front back : List Char} :
    Spells (front ++ back) t ↔ ∃ a b, t = a ++ b ∧ Spells front a ∧ Spells back b := by
  induction front generalizing t with
  | nil =>
    constructor
    · intro spells
      exact ⟨[], t, rfl, .nil, spells⟩
    · rintro ⟨_, _, rfl, ⟨⟩, spells⟩
      exact spells
  | cons c front ih =>
    rw [List.cons_append]
    by_cases star : c = '*'
    · subst star
      simp only [spells_star, ih]
      constructor
      · rintro ⟨run, _, rfl, a, b, rfl, front, back⟩
        exact ⟨run ++ a, b, by simp, ⟨run, a, rfl, front⟩, back⟩
      · rintro ⟨_, b, rfl, ⟨run, a, rfl, front⟩, back⟩
        exact ⟨run, a ++ b, by simp, a, b, rfl, front, back⟩
    · simp only [spells_cons star, ih]
      constructor
      · rintro ⟨_, rfl, a, b, rfl, front, back⟩
        exact ⟨c :: a, b, rfl, ⟨a, rfl, front⟩, back⟩
      · rintro ⟨_, b, rfl, ⟨a, rfl, front⟩, back⟩
        exact ⟨a ++ b, rfl, a, b, rfl, front, back⟩

theorem spells_literal (literal : '*' ∉ pattern) : Spells pattern t ↔ t = pattern := by
  induction pattern generalizing t with
  | nil => exact spells_nil
  | cons c pattern ih =>
    rw [List.mem_cons, not_or] at literal
    simp [spells_cons (Ne.symm literal.1), ih literal.2]

/-- What stands for itself at either end of a pattern is the text's own end, and the two ends
share no character of it. -/
theorem spells_between (start : '*' ∉ first) (stop : '*' ∉ last) :
    Spells (first ++ pattern ++ last) t ↔
      ∃ inner, t = first ++ inner ++ last ∧ Spells pattern inner := by
  simp only [spells_append, spells_literal start, spells_literal stop]
  constructor
  · rintro ⟨_, _, rfl, ⟨_, inner, rfl, rfl, spells⟩, rfl⟩
    exact ⟨inner, rfl, spells⟩
  · rintro ⟨inner, rfl, spells⟩
    exact ⟨_, _, rfl, ⟨_, inner, rfl, rfl, spells⟩, rfl⟩

/-- The parts stand in the text in this order, from its start to its end, with any text between
two of them. -/
def Joined : (parts : List (List Char)) → (s : List Char) → Prop
  | [], _ => False
  | [last], s => s = last
  | part :: parts, s => ∃ run rest, s = part ++ (run ++ rest) ∧ Joined parts rest

theorem joined_nil_cons (more : parts ≠ []) :
    Joined ([] :: parts) s ↔ ∃ run rest, s = run ++ rest ∧ Joined parts rest := by
  obtain ⟨part, parts, rfl⟩ := List.exists_cons_of_ne_nil more
  exact Iff.rfl

theorem joined_cons_cons :
    Joined ((c :: part) :: parts) s ↔ ∃ rest, s = c :: rest ∧ Joined (part :: parts) rest := by
  cases parts with
  | nil => simp [Joined]
  | cons next parts =>
    simp only [Joined]
    constructor
    · rintro ⟨run, rest, rfl, joined⟩
      exact ⟨_, rfl, run, rest, rfl, joined⟩
    · rintro ⟨_, rfl, run, rest, rfl, joined⟩
      exact ⟨run, rest, rfl, joined⟩

theorem spells_iff_joined : Spells pattern s ↔ Joined (splitAt '*' pattern) s := by
  induction pattern generalizing s with
  | nil => exact spells_nil
  | cons c pattern ih =>
    by_cases star : c = '*'
    · subst star
      rw [spells_star, splitAt, splitWhen, if_pos (beq_self_eq_true '*'),
        joined_nil_cons (splitWhen_ne_nil _ _)]
      simp only [ih, splitAt]
    · obtain ⟨piece, pieces, rest, whole⟩ :=
        splitWhen_cons_of_false (p := (· == '*')) (beq_eq_false_iff_ne.mpr star) pattern
      rw [spells_cons star, splitAt, whole, joined_cons_cons]
      simp only [ih, splitAt, rest]

/-- The parts occur in the text in this order, no two of them sharing a character. -/
def Occur : (parts : List (List Char)) → (s : List Char) → Prop
  | [], _ => True
  | part :: parts, s => ∃ before after, s = before ++ (part ++ after) ∧ Occur parts after

theorem joined_concat_iff :
    Joined (first :: (middle ++ [last])) s ↔
      ∃ inner, s = first ++ (inner ++ last) ∧ Occur middle inner := by
  induction middle generalizing first s with
  | nil => simp [Joined, Occur]
  | cons part middle ih =>
    simp only [List.cons_append, Joined, Occur, ih]
    constructor
    · rintro ⟨run, _, rfl, inner, rfl, occur⟩
      exact ⟨run ++ (part ++ inner), by simp, run, inner, rfl, occur⟩
    · rintro ⟨_, rfl, run, inner, rfl, occur⟩
      exact ⟨run, part ++ (inner ++ last), by simp, inner, rfl, occur⟩

theorem Occur.after (occur : Occur parts s) (gap : List Char) : Occur parts (gap ++ s) := by
  cases parts with
  | nil => trivial
  | cons part parts =>
    obtain ⟨before, rest, rfl, occur⟩ := occur
    exact ⟨gap ++ before, rest, by simp, occur⟩

/-- The cut is made at the first occurrence: whatever follows another one follows the cut too. -/
theorem exists_cutAt?_append (lit before after : List Char) :
    ∃ front gap, cutAt? lit (before ++ (lit ++ after)) = some (front, gap ++ after) := by
  induction before with
  | nil =>
    refine ⟨[], [], ?_⟩
    have cut := dropLiteral?_eq_some_iff.mpr (rfl : lit ++ after = lit ++ after)
    cases whole : lit ++ after with
    | nil =>
      obtain ⟨rfl, rfl⟩ := List.append_eq_nil_iff.mp whole
      rfl
    | cons c s =>
      rw [whole] at cut
      simp [cutAt?, cut]
  | cons c before ih =>
    rw [List.cons_append, cutAt?]
    cases cut : dropLiteral? lit (c :: (before ++ (lit ++ after))) with
    | some rest =>
      -- `rest` and `after` are both ends of the text, and `rest` is the longer one.
      have whole := dropLiteral?_eq_some_iff.mp cut
      have length := congrArg List.length whole
      simp only [List.length_cons, List.length_append] at length
      have stop : after <:+ rest := List.suffix_of_suffix_length_le
        ⟨c :: (before ++ lit), by simp⟩ (whole ▸ List.suffix_append lit rest) (by omega)
      obtain ⟨gap, rfl⟩ := stop
      exact ⟨[], gap, rfl⟩
    | none =>
      obtain ⟨front, gap, found⟩ := ih
      exact ⟨c :: front, gap, by simp [found]⟩

theorem containsLiteral_iff {lit s : List Char} : containsLiteral lit s = true ↔ lit <:+: s := by
  rw [containsLiteral, Option.isSome_iff_exists]
  constructor
  · rintro ⟨⟨before, after⟩, cut⟩
    exact ⟨before, after, by rw [eq_append_of_cutAt? cut, List.append_assoc]⟩
  · rintro ⟨before, after, rfl⟩
    obtain ⟨front, gap, cut⟩ := exists_cutAt?_append lit before after
    exact ⟨_, by rw [List.append_assoc, cut]⟩

theorem inOrder_eq_true_iff : inOrder parts s = true ↔ Occur parts s := by
  induction parts generalizing s with
  | nil => simp [inOrder, Occur]
  | cons part parts ih =>
    rw [inOrder, Occur]
    constructor
    · intro found
      split at found
      next before after cut =>
        exact ⟨before, after, eq_append_of_cutAt? cut, ih.mp found⟩
      next => cases found
    · rintro ⟨before, after, rfl, occur⟩
      obtain ⟨front, gap, cut⟩ := exists_cutAt?_append part before after
      rw [cut]
      exact ih.mpr (occur.after gap)

theorem matchParts_eq_true_iff (some : parts ≠ []) :
    matchParts parts s = true ↔ Joined parts s := by
  match parts, some with
  | [whole], _ => simp [matchParts, Joined]
  | first :: next :: rest, _ =>
    obtain ⟨middle, last, parts⟩ : ∃ middle last, next :: rest = middle ++ [last] :=
      ⟨_, _, (List.dropLast_concat_getLast (List.cons_ne_nil next rest)).symm⟩
    rw [matchParts, parts, joined_concat_iff, List.getLast?_concat, List.dropLast_concat,
      Option.getD_some]
    · constructor
      · intro found
        split at found
        next inner cut =>
          obtain ⟨behind, start, stop⟩ := Option.bind_eq_some_iff.mp cut
          rw [dropLiteral?_eq_some_iff] at start
          rw [dropLiteralEnd?_eq_some_iff] at stop
          exact ⟨inner, by rw [start, stop], inOrder_eq_true_iff.mp found⟩
        next => cases found
      · rintro ⟨inner, rfl, occur⟩
        rw [dropLiteral?_eq_some_iff.mpr rfl, Option.bind_some,
          dropLiteralEnd?_eq_some_iff.mpr rfl]
        exact inOrder_eq_true_iff.mpr occur
    · simp

theorem matches_eq_true_iff {pattern text : String} :
    Wildcard.matches pattern text = true ↔ Spells pattern.toList text.toList := by
  rw [Wildcard.matches, splitAt, matchParts_eq_true_iff (splitWhen_ne_nil _ _),
    spells_iff_joined, splitAt]

example : Wildcard.matches "ab*ba" "aba" = false := by decide

theorem Spells.mem (spells : Spells pattern t) (member : c ∈ pattern) (itself : c ≠ '*') :
    c ∈ t := by
  induction spells with
  | nil => cases member
  | itself _ _ ih =>
    rcases List.mem_cons.mp member with rfl | later
    · exact List.mem_cons_self
    · exact List.mem_cons_of_mem _ (ih later)
  | star run _ ih =>
    rcases List.mem_cons.mp member with rfl | later
    · exact absurd rfl itself
    · exact List.mem_append_right run (ih later)

/-- The characters of a pattern that stand for themselves are in every text that it matches. -/
theorem mem_of_matches {pattern text : String} (found : Wildcard.matches pattern text = true)
    (member : c ∈ pattern.toList) (itself : c ≠ '*') : c ∈ text.toList :=
  (matches_eq_true_iff.mp found).mem member itself

end Inventory.Wildcard
