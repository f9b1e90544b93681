import Inventory.Proofs.Path
import Inventory.Proofs.Text.Utf8
import Mathlib.Data.List.Lex
import Mathlib.Data.String.Basic
import Mathlib.Tactic.SplitIfs

/-! Paths whose names are texts are shown as they are, and their order by bytes is the one by
characters. What is shown of a part of a path is seen in the whole. -/
namespace Inventory.Path

open Text

variable {path name : String} {s t : List Char} {c : Char} {awaited : List (Nat × Nat)}

/-- Every byte of the path belongs to a character. -/
def IsText (path : String) : Prop := '\x00' ∉ path.toList

instance (path : String) : Decidable (IsText path) :=
  inferInstanceAs (Decidable ('\x00' ∉ path.toList))

theorem isStray_of_ne (other : c ≠ '\x00') (d : Char) : isStray c d = false := by
  simp [isStray, other]

theorem isStray_slash (c : Char) : isStray c '/' = false := by
  rw [isStray, Bool.and_eq_false_iff]
  exact .inr (by decide)

theorem shownFrom_cons (other : c ≠ '\x00') (awaited : List (Nat × Nat)) (s : List Char) :
    shownFrom awaited (c :: s) = c :: shownFrom [] s := by
  cases s with
  | nil => rfl
  | cons d s => simp [shownFrom, isStray_of_ne other]

theorem shownFrom_of_notMem (text : '\x00' ∉ s) (awaited : List (Nat × Nat)) :
    shownFrom awaited s = s := by
  induction s generalizing awaited with
  | nil => rfl
  | cons c s ih =>
    obtain ⟨other, rest⟩ := List.ne_and_not_mem_of_not_mem_cons text
    rw [shownFrom_cons other.symm, ih rest]

theorem shown_of_isText (text : IsText path) : shown path = path := by
  rw [shown, shownFrom_of_notMem text, String.ofList_toList]

/-- Bytes of different names are no bytes of one character. -/
theorem shownFrom_append_slash (awaited : List (Nat × Nat)) (s t : List Char) :
    shownFrom awaited (s ++ '/' :: t) = shownFrom awaited s ++ '/' :: shownFrom [] t := by
  have slash (awaited : List (Nat × Nat)) : shownFrom awaited ('/' :: t) = '/' :: shownFrom [] t :=
    shownFrom_cons (by decide) awaited t
  fun_induction shownFrom awaited s with
  | case1 => exact slash _
  | case2 _ c => simp [shownFrom, isStray_slash, slash]
  | case3 _ c d rest stray going ih => simp [shownFrom, stray, going, ih]
  | case4 _ c d rest stray going ih => simp [shownFrom, stray, going, ih]
  | case5 _ c d rest stray ih =>
    rw [List.cons_append] at ih
    simp [shownFrom, stray, ih]

theorem mem_shownFrom_of_mem_piece {piece : List Char} (member : piece ∈ splitAt '/' s)
    (among : c ∈ shownFrom [] piece) : c ∈ shownFrom [] s := by
  induction length : s.length using Nat.strong_induction_on generalizing s with
  | _ n ih =>
    have alone {first : List Char} (none : '/' ∉ first) : splitAt '/' first = [first] :=
      splitWhen_of_forall fun d inside => beq_eq_false_iff_ne.mpr fun same => none (same ▸ inside)
    by_cases slash : '/' ∈ s
    · obtain ⟨first, rest, rfl, none⟩ := List.eq_append_cons_of_mem slash
      rw [splitAt_append_cons, alone none, List.singleton_append, List.mem_cons] at member
      rw [shownFrom_append_slash, List.mem_append, List.mem_cons]
      rcases member with rfl | later
      · exact .inl among
      · have shorter : rest.length < n := by
          simp only [List.length_append, List.length_cons] at length
          omega
        exact .inr (.inr (ih rest.length shorter later rfl))
    · obtain rfl : piece = s := by simpa [alone slash] using member
      exact among

theorem mem_shown_of_mem_fileName (among : c ∈ (shown (fileName path)).toList) :
    c ∈ (shown path).toList := by
  unfold fileName at among
  split at among
  next name here =>
    split at among
    · exact among
    · have piece := List.mem_reverse.mp (mem_of_mem_dropEmptyEnd (List.mem_of_head? here))
      obtain ⟨letters, isPiece, rfl⟩ := List.mem_map.mp piece
      rw [shown, String.toList_ofList, String.toList_ofList] at among
      rw [shown, String.toList_ofList]
      exact mem_shownFrom_of_mem_piece isPiece among
  next => exact among

/-- The bytes of a later character come later. -/
theorem utf8EncodeChar_append_lt {d : Char} (lt : c < d) (x y : List Nat) :
    (String.utf8EncodeChar c).map UInt8.toNat ++ x <
      (String.utf8EncodeChar d).map UInt8.toNat ++ y := by
  have lt : c.toNat < d.toNat := lt
  have bound : d.toNat < 0x110000 := by
    rcases d.valid with low | ⟨_, high⟩
    · exact lt_trans low (by decide)
    · exact high
  have small {n : Nat} (low : n < 256) : n % 256 = n := Nat.mod_eq_of_lt low
  have trail (n : Nat) : (n % 64 + 128) % 256 = n % 64 + 128 := small (by omega)
  have two (n : Nat) : (n % 32 + 192) % 256 = n % 32 + 192 := small (by omega)
  have three (n : Nat) : (n % 16 + 224) % 256 = n % 16 + 224 := small (by omega)
  have four (n : Nat) : (n % 8 + 240) % 256 = n % 8 + 240 := small (by omega)
  have twice (n : Nat) : n / 4096 = n / 64 / 64 := (Nat.div_div_eq_div_mul n 64 64).symm
  have thrice (n : Nat) : n / 262144 = n / 64 / 64 / 64 := by
    rw [Nat.div_div_eq_div_mul, Nat.div_div_eq_div_mul]
  simp only [String.utf8EncodeChar, Char.toNat_val, twice, thrice]
  split_ifs <;> simp [List.cons_lt_cons_iff, trail, two, three, four] <;> omega

theorem bytes_of_notMem (text : '\x00' ∉ s) : bytes s = (utf8 s).map UInt8.toNat := by
  induction s with
  | nil => rfl
  | cons c s ih =>
    obtain ⟨other, rest⟩ := List.ne_and_not_mem_of_not_mem_cons text
    rw [utf8_cons, List.map_append, ← ih rest]
    cases s with
    | nil => exact (List.append_nil _).symm
    | cons d s => rw [bytes, isStray_of_ne other.symm, if_neg Bool.false_ne_true]

theorem map_utf8_lt (lt : s < t) : (utf8 s).map UInt8.toNat < (utf8 t).map UInt8.toNat := by
  induction s generalizing t with
  | nil =>
    cases t with
    | nil => exact absurd lt (List.lt_irrefl _)
    | cons d t =>
      obtain ⟨lead, trail, encoded, -⟩ := exists_lead d
      simp [encoded]
  | cons c s ih =>
    cases t with
    | nil => cases lt
    | cons d t =>
      simp only [utf8_cons, List.map_append]
      rcases List.cons_lt_cons_iff.mp lt with first | ⟨rfl, rest⟩
      · exact utf8EncodeChar_append_lt first _ _
      · exact List.append_left_lt (ih rest)

theorem IsText.of_mem_components (text : IsText path) {part : String}
    (member : part ∈ components path) : IsText part := by
  rcases mem_pieces_of_mem_components member with piece | rfl
  · obtain ⟨letters, isPiece, rfl⟩ := List.mem_map.mp piece
    rw [IsText, String.toList_ofList]
    exact fun inside => text (mem_of_mem_splitWhen isPiece inside)
  · decide

theorem order_of_isText (text : IsText path) : order path = (components path).map fun name =>
    [(utf8 name.toList).map UInt8.toNat, name.toList.map Char.toNat] := by
  refine List.map_congr_left fun name member => ?_
  rw [bytes_of_notMem (text.of_mem_components member)]

/-- Paths that are texts are ordered by their components. -/
theorem order_lt_iff {other : String} (text : IsText path) (text' : IsText other) :
    order path < order other ↔ components path < components other := by
  rw [order_of_isText text, order_of_isText text']
  have later (a b : String) (lt : a < b) :
      [(utf8 a.toList).map UInt8.toNat, a.toList.map Char.toNat] <
        [(utf8 b.toList).map UInt8.toNat, b.toList.map Char.toNat] :=
    List.cons_lt_cons_iff.mpr (.inl (map_utf8_lt (String.lt_iff_toList_lt.mp lt)))
  constructor
  · intro lt
    rcases lt_trichotomy (components path) (components other) with first | same | last
    · exact first
    · exact absurd (same ▸ lt) (lt_irrefl _)
    · exact absurd (List.map_lt later last) (lt_asymm lt)
  · exact List.map_lt later

theorem order_inj {other : String} :
    order path = order other ↔ components path = components other := by
  constructor
  · refine fun same => List.map_injective_iff.mpr (fun a b equal => ?_) same
    have letters := (List.cons.inj (List.cons.inj equal).2).1
    exact String.toList_inj.mp (List.map_injective_iff.mpr (fun _ _ => Char.toNat_inj.mp) letters)
  · exact congrArg (List.map _)

end Inventory.Path
