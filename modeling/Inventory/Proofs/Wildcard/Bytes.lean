import Inventory.Proofs.Text.Utf8
import Inventory.Proofs.Wildcard

/-! Matching on the bytes of pattern and text. Every cut leaves a slice of the bytes behind, and
there is no slice inside a character: the run on bytes comes to an end all the same, and finds what
the run on characters finds. -/
namespace Inventory.Wildcard

open Text

def afterStart? (part s : List UInt8) (next : List UInt8 → Option Bool) : Option Bool :=
  if part.isEmpty then next s
  else if part.isPrefixOf s then (sliceFrom? s part.length).bind next
  else some false

def beforeEnd? (part s : List UInt8) (next : List UInt8 → Option Bool) : Option Bool :=
  if part.isEmpty then next s
  else if part.isSuffixOf s then (sliceTo? s (s.length - part.length)).bind next
  else some false

def inOrder? : (parts : List (List UInt8)) → (s : List UInt8) → Option Bool
  | [], _ => some true
  | part :: parts, s =>
    if part.isEmpty then inOrder? parts s
    else
      match position? part s with
      | some i => (sliceFrom? s (i + part.length)).bind (inOrder? parts)
      | none => some false

/-- Whether the pattern matches; `none` if a slice was to be taken inside a character. -/
def matches? (pattern text : List UInt8) : Option Bool :=
  match pattern.splitOn (UInt8.ofNat '*'.toNat) with
  | [] | [_] => some (pattern == text)
  | first :: rest =>
    afterStart? first text fun s =>
      beforeEnd? (rest.getLast?.getD []) s fun s => inOrder? rest.dropLast s

theorem isEmpty_utf8 (s : List Char) : (utf8 s).isEmpty = s.isEmpty := by
  cases s <;> simp [String.utf8EncodeChar_ne_nil]

theorem afterStart?_utf8 (part s : List Char) (next : List UInt8 → Option Bool) :
    afterStart? (utf8 part) (utf8 s) next =
      ((dropLiteral? part s).map fun rest => next (utf8 rest)).getD (some false) := by
  rw [afterStart?, isEmpty_utf8, isPrefixOf_utf8]
  cases cut : dropLiteral? part s with
  | none =>
    cases part with
    | nil => cases cut
    | cons c part => rfl
  | some rest =>
    obtain rfl := dropLiteral?_eq_some_iff.mp cut
    cases part with
    | nil => rfl
    | cons c part =>
      rw [utf8_append, sliceFrom?_append]
      rfl

theorem beforeEnd?_utf8 (part s : List Char) (next : List UInt8 → Option Bool) :
    beforeEnd? (utf8 part) (utf8 s) next =
      ((dropLiteralEnd? part s).map fun before => next (utf8 before)).getD (some false) := by
  rw [beforeEnd?, isEmpty_utf8, isSuffixOf_utf8]
  cases cut : dropLiteralEnd? part s with
  | none =>
    cases part with
    | nil => cases cut
    | cons c part => rfl
  | some before =>
    obtain rfl := dropLiteralEnd?_eq_some_iff.mp cut
    cases part with
    | nil => simp
    | cons c part =>
      have front : (utf8 before ++ utf8 (c :: part)).length - (utf8 (c :: part)).length =
          (utf8 before).length := by
        rw [List.length_append, Nat.add_sub_cancel]
      rw [utf8_append, front, sliceTo?_append]
      rfl

theorem inOrder?_utf8 (parts : List (List Char)) (s : List Char) :
    inOrder? (parts.map utf8) (utf8 s) = some (inOrder parts s) := by
  induction parts generalizing s with
  | nil => rfl
  | cons part parts ih =>
    rw [List.map_cons, inOrder?, inOrder, isEmpty_utf8, position?_utf8]
    cases part with
    | nil =>
      have cut : cutAt? [] s = some ([], s) := by cases s <;> rfl
      simpa [cut] using ih s
    | cons c part =>
      cases cut : cutAt? (c :: part) s with
      | none => rfl
      | some found =>
        obtain ⟨before, after⟩ := found
        have whole : utf8 s = (utf8 before ++ utf8 (c :: part)) ++ utf8 after := by
          rw [eq_append_of_cutAt? cut, utf8_append, utf8_append, List.append_assoc]
        have slice : sliceFrom? (utf8 s) ((utf8 before).length + (utf8 (c :: part)).length) =
            some (utf8 after) := by
          rw [whole, ← List.length_append, sliceFrom?_append]
        rw [Option.map_some]
        change (sliceFrom? _ _).bind _ = _
        rw [slice]
        exact ih after

theorem matches?_utf8 (pattern text : List Char) :
    matches? (utf8 pattern) (utf8 text) = some (matchParts (splitAt '*' pattern) text) := by
  rw [matches?, splitOn_utf8 (by decide)]
  match parts : splitAt '*' pattern with
  | [] => exact absurd parts (splitWhen_ne_nil _ _)
  | [whole] =>
    obtain rfl := eq_of_splitWhen_eq_singleton parts
    have same : (utf8 pattern == utf8 text) = (text == pattern) := by
      rw [Bool.eq_iff_iff, beq_iff_eq, beq_iff_eq, utf8_inj, eq_comm]
    exact congrArg some same
  | first :: second :: rest =>
    have last : (((second :: rest).map utf8).getLast?.getD []) =
        utf8 ((second :: rest).getLast?.getD []) := by
      rw [List.getLast?_map, List.getLast?_eq_some_getLast (List.cons_ne_nil second rest)]
      rfl
    change afterStart? (utf8 first) (utf8 text) (fun s => beforeEnd?
      (((second :: rest).map utf8).getLast?.getD []) s fun s =>
        inOrder? ((second :: rest).map utf8).dropLast s) = _
    rw [afterStart?_utf8, matchParts]
    simp only [last, beforeEnd?_utf8, ← List.map_dropLast, inOrder?_utf8]
    cases dropLiteral? first text with
    | none => rfl
    | some behind =>
      cases stop : dropLiteralEnd? ((second :: rest).getLast?.getD []) behind with
      | none => simp [stop]
      | some inner => simp [stop]
    · simp

/-- A pattern matches the texts that it spells and no others: without a star itself alone, and else
what begins as it does and ends as it does, with the rest of the pattern spelled in between. A run on
the bytes finds the same and cuts between characters only. -/
theorem matches_iff_spells (pattern text : String) :
    (Wildcard.matches pattern text = true ↔ Spells pattern.toList text.toList) ∧
    ('*' ∉ pattern.toList → (Wildcard.matches pattern text = true ↔ text = pattern)) ∧
    (∀ first stars last, '*' ∉ first → '*' ∉ last → pattern.toList = first ++ stars ++ last →
      (Wildcard.matches pattern text = true ↔
        ∃ inner, text.toList = first ++ inner ++ last ∧ Spells stars inner)) ∧
    matches? pattern.toByteArray.data.toList text.toByteArray.data.toList =
      some (Wildcard.matches pattern text) := by
  rw [matches_eq_true_iff]
  refine ⟨Iff.rfl, ?_, ?_, ?_⟩
  · intro literal
    rw [spells_literal literal, String.toList_inj]
  · intro first stars last start stop whole
    rw [whole, spells_between start stop]
  · rw [toList_data_toByteArray, toList_data_toByteArray]
    exact matches?_utf8 pattern.toList text.toList

end Inventory.Wildcard
