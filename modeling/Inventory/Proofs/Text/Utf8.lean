import Inventory.Proofs.Text.Split
import Mathlib.Tactic.SplitIfs

/-! A text as the bytes it is stored in. Only the first byte of a character's encoding is not a
continuation byte, and no encoding is the start of another one, so that bytes found among bytes are
characters found among characters. -/
namespace Inventory.Text

variable {lit s : List Char} {c sep : Char} {x : List UInt8}

def utf8 (s : List Char) : List UInt8 := s.flatMap String.utf8EncodeChar

@[simp] theorem utf8_nil : utf8 [] = [] := rfl

@[simp] theorem utf8_cons (c : Char) (s : List Char) :
    utf8 (c :: s) = String.utf8EncodeChar c ++ utf8 s :=
  List.flatMap_cons

@[simp] theorem utf8_append (s t : List Char) : utf8 (s ++ t) = utf8 s ++ utf8 t :=
  List.flatMap_append

theorem toList_data_toByteArray (s : String) : s.toByteArray.data.toList = utf8 s.toList := by
  conv => lhs; rw [← String.ofList_toList (s := s)]
  rw [String.toByteArray_ofList, List.utf8Encode, List.toList_data_toByteArray, utf8]

def isContinuation (b : UInt8) : Bool := 0x80 ≤ b && b < 0xC0

/-- Where a slice may begin and end: at both ends and in front of a character. -/
def isBoundary (bytes : List UInt8) (i : Nat) : Bool :=
  i == 0 ||
    match bytes[i]? with
    | some b => !isContinuation b
    | none => i == bytes.length

/-- The bytes from `i` on; there is no such slice inside a character. -/
def sliceFrom? (bytes : List UInt8) (i : Nat) : Option (List UInt8) :=
  if isBoundary bytes i then some (bytes.drop i) else none

def sliceTo? (bytes : List UInt8) (i : Nat) : Option (List UInt8) :=
  if isBoundary bytes i then some (bytes.take i) else none

def position? (part : List UInt8) : List UInt8 → Option Nat
  | [] => if part.isEmpty then some 0 else none
  | b :: bytes =>
    if part.isPrefixOf (b :: bytes) then some 0 else (position? part bytes).map (· + 1)

theorem exists_lead (c : Char) : ∃ lead trail, String.utf8EncodeChar c = lead :: trail ∧
    isContinuation lead = false ∧ ∀ b ∈ trail, isContinuation b = true := by
  simp only [isContinuation, Bool.and_eq_true, Bool.and_eq_false_iff, decide_eq_true_eq,
    decide_eq_false_iff_not, UInt8.le_iff_toNat_le, UInt8.lt_iff_toNat_lt, String.utf8EncodeChar,
    Char.toNat_val]
  split_ifs with one two three
  · exact ⟨_, [], rfl, by simp; omega, by simp⟩
  · exact ⟨_, _, rfl, by simp; omega, by simp; omega⟩
  · exact ⟨_, _, rfl, by simp; omega, by simp; omega⟩
  · exact ⟨_, _, rfl, by simp; omega, by simp; omega⟩

theorem utf8EncodeChar_of_ascii (ascii : c.toNat < 0x80) :
    String.utf8EncodeChar c = [UInt8.ofNat c.toNat] := by
  simp only [String.utf8EncodeChar, Char.toNat_val, Nat.le_of_lt_succ ascii, if_true]

theorem not_mem_utf8EncodeChar (ascii : sep.toNat < 0x80) (other : c ≠ sep) :
    UInt8.ofNat sep.toNat ∉ String.utf8EncodeChar c := by
  have other : c.toNat ≠ sep.toNat := fun same => other (Char.toNat_inj.mp same)
  simp only [String.utf8EncodeChar, Char.toNat_val]
  split_ifs with one two three <;> simp [← UInt8.toNat_inj] <;> omega

theorem utf8EncodeChar_append_inj {d : Char} {y : List UInt8}
    (same : String.utf8EncodeChar c ++ x = String.utf8EncodeChar d ++ y) : c = d ∧ x = y := by
  have decoded := congrArg (fun bytes => (List.toByteArray bytes).utf8DecodeChar? 0) same
  simp only [List.toByteArray_append, ByteArray.utf8DecodeChar?_utf8EncodeChar_append,
    Option.some.injEq] at decoded
  subst decoded
  exact ⟨rfl, List.append_cancel_left same⟩

/-- Bytes at the start of a text that are those of a text are this text's start. -/
theorem utf8_append_eq_iff :
    utf8 lit ++ x = utf8 s ↔ ∃ rest, s = lit ++ rest ∧ x = utf8 rest := by
  constructor
  · intro whole
    induction lit generalizing s with
    | nil => exact ⟨s, rfl, whole⟩
    | cons c lit ih =>
      cases s with
      | nil => simp [String.utf8EncodeChar_ne_nil] at whole
      | cons d s =>
        rw [utf8_cons, utf8_cons, List.append_assoc] at whole
        obtain ⟨rfl, behind⟩ := utf8EncodeChar_append_inj whole
        obtain ⟨rest, rfl, rfl⟩ := ih behind
        exact ⟨rest, rfl, rfl⟩
  · rintro ⟨rest, rfl, rfl⟩
    rw [utf8_append]

theorem utf8_inj {t : List Char} : utf8 s = utf8 t ↔ s = t := by
  constructor
  · intro same
    rw [← List.append_nil (utf8 s), utf8_append_eq_iff] at same
    obtain ⟨rest, rfl, none⟩ := same
    cases rest with
    | nil => simp
    | cons c rest => simp [String.utf8EncodeChar_ne_nil] at none
  · exact congrArg utf8

theorem isBoundary_append (x : List UInt8) (lit : List Char) :
    isBoundary (x ++ utf8 lit) x.length = true := by
  cases lit with
  | nil => simp [isBoundary]
  | cons c lit =>
    obtain ⟨lead, trail, encoding, first, -⟩ := exists_lead c
    simp [isBoundary, encoding, first]

theorem isBoundary_of_append {bytes : List UInt8} {i : Nat}
    (boundary : isBoundary (x ++ bytes) (x.length + i) = true) : isBoundary bytes i = true := by
  rcases Nat.eq_zero_or_pos i with rfl | inside
  · rfl
  · have byte : (x ++ bytes)[x.length + i]? = bytes[i]? := by
      rw [List.getElem?_append_right (Nat.le_add_right _ _), Nat.add_sub_cancel_left]
    have positive : (x.length + i == 0) = false := beq_eq_false_iff_ne.mpr (by omega)
    have stop : (x.length + i == x.length + bytes.length) = (i == bytes.length) := by
      rw [Bool.eq_iff_iff]
      simp
    rw [isBoundary, byte, positive, Bool.false_or, List.length_append, stop] at boundary
    rw [isBoundary, boundary, Bool.or_true]

/-- Slices of a text begin and end between its characters. -/
theorem isBoundary_utf8_iff {i : Nat} :
    isBoundary (utf8 s) i = true ↔ ∃ front back, s = front ++ back ∧ i = (utf8 front).length := by
  constructor
  · intro boundary
    induction s generalizing i with
    | nil =>
      obtain rfl : i = 0 := by simpa [isBoundary] using boundary
      exact ⟨[], [], rfl, rfl⟩
    | cons c s ih =>
      obtain ⟨lead, trail, encoding, -, behind⟩ := exists_lead c
      cases i with
      | zero => exact ⟨[], c :: s, rfl, rfl⟩
      | succ i =>
        rcases Nat.lt_or_ge i trail.length with among | beyond
        · have byte : (utf8 (c :: s))[i + 1]? = some trail[i] := by
            simp [encoding, List.getElem?_append_left among]
          rw [isBoundary, byte] at boundary
          simp [behind _ (List.getElem_mem among)] at boundary
        · obtain ⟨i, rfl⟩ := Nat.exists_eq_add_of_le beyond
          have later : isBoundary (utf8 s) i = true := by
            apply isBoundary_of_append (x := String.utf8EncodeChar c)
            simpa [encoding, Nat.add_right_comm] using boundary
          obtain ⟨front, back, rfl, rfl⟩ := ih later
          exact ⟨c :: front, back, rfl, by simp [encoding]⟩
  · rintro ⟨front, back, rfl, rfl⟩
    rw [utf8_append]
    exact isBoundary_append _ _

example : isBoundary (utf8 "é*".toList) 1 = false := by decide

@[simp] theorem sliceFrom?_append (x : List UInt8) (lit : List Char) :
    sliceFrom? (x ++ utf8 lit) x.length = some (utf8 lit) := by
  simp [sliceFrom?, isBoundary_append]

@[simp] theorem sliceTo?_append (x : List UInt8) (lit : List Char) :
    sliceTo? (x ++ utf8 lit) x.length = some x := by
  simp [sliceTo?, isBoundary_append]

/-- Bytes at the end of a text that are those of a text are this text's end. -/
theorem append_utf8_eq_iff :
    x ++ utf8 lit = utf8 s ↔ ∃ before, s = before ++ lit ∧ x = utf8 before := by
  constructor
  · intro whole
    obtain ⟨before, back, rfl, length⟩ :=
      isBoundary_utf8_iff.mp (whole ▸ isBoundary_append x lit)
    rw [utf8_append] at whole
    obtain ⟨rfl, same⟩ := List.append_inj whole length
    exact ⟨before, by rw [utf8_inj.mp same], rfl⟩
  · rintro ⟨before, rfl, rfl⟩
    rw [utf8_append]

theorem isPrefixOf_utf8 (lit s : List Char) :
    (utf8 lit).isPrefixOf (utf8 s) = (dropLiteral? lit s).isSome := by
  rw [Bool.eq_iff_iff, List.isPrefixOf_iff_prefix, Option.isSome_iff_exists]
  simp only [List.IsPrefix, utf8_append_eq_iff, dropLiteral?_eq_some_iff]
  constructor
  · rintro ⟨_, rest, whole, -⟩
    exact ⟨rest, whole⟩
  · rintro ⟨rest, whole⟩
    exact ⟨_, rest, whole, rfl⟩

theorem isSuffixOf_utf8 (lit s : List Char) :
    (utf8 lit).isSuffixOf (utf8 s) = (dropLiteralEnd? lit s).isSome := by
  rw [Bool.eq_iff_iff, List.isSuffixOf_iff_suffix, Option.isSome_iff_exists]
  simp only [List.IsSuffix, append_utf8_eq_iff, dropLiteralEnd?_eq_some_iff]
  constructor
  · rintro ⟨_, before, whole, -⟩
    exact ⟨before, whole⟩
  · rintro ⟨before, whole⟩
    exact ⟨_, before, whole, rfl⟩

/-- A text does not begin at a continuation byte. -/
theorem not_isPrefixOf_of_isContinuation {b : UInt8} (literal : lit ≠ [])
    (continues : isContinuation b = true) (bytes : List UInt8) :
    (utf8 lit).isPrefixOf (b :: bytes) = false := by
  obtain ⟨c, lit, rfl⟩ := List.exists_cons_of_ne_nil literal
  obtain ⟨lead, others, encoding, first, -⟩ := exists_lead c
  have other : (lead == b) = false := by
    rw [beq_eq_false_iff_ne]
    rintro rfl
    exact absurd continues (by simp [first])
  simp [encoding, List.isPrefixOf, other]

theorem position?_continuations {trail : List UInt8} (literal : lit ≠ [])
    (behind : ∀ b ∈ trail, isContinuation b = true) (bytes : List UInt8) :
    position? (utf8 lit) (trail ++ bytes) =
      (position? (utf8 lit) bytes).map (· + trail.length) := by
  induction trail with
  | nil => simp
  | cons b trail ih =>
    rw [List.forall_mem_cons] at behind
    rw [List.cons_append, position?, ih behind.2,
      not_isPrefixOf_of_isContinuation literal behind.1]
    simp [Function.comp_def, Nat.add_assoc]

/-- The place at which a text is found among the bytes is where the cut at it is made. -/
theorem position?_utf8 (lit s : List Char) :
    position? (utf8 lit) (utf8 s) = (cutAt? lit s).map fun cut => (utf8 cut.1).length := by
  induction s with
  | nil => cases lit <;> simp [position?, cutAt?, String.utf8EncodeChar_ne_nil]
  | cons c s ih =>
    obtain ⟨lead, trail, encoding, -, behind⟩ := exists_lead c
    have here := isPrefixOf_utf8 lit (c :: s)
    rw [utf8_cons, encoding, List.cons_append] at here ⊢
    rw [position?, here, cutAt?]
    cases start : dropLiteral? lit (c :: s) with
    | some rest => rfl
    | none =>
      have literal : lit ≠ [] := by
        rintro rfl
        cases start
      rw [position?_continuations literal behind, ih]
      have width : c.utf8Size = trail.length + 1 := by
        rw [← String.length_utf8EncodeChar, encoding, List.length_cons]
      simp [Function.comp_def, width, Nat.add_comm (trail.length + 1), Nat.add_assoc]

theorem splitOn_append_of_not_mem {b : UInt8} (absent : b ∉ x) (bytes : List UInt8) :
    (x ++ bytes).splitOn b = (bytes.splitOn b).modifyHead (x ++ ·) := by
  induction x with
  | nil => exact (congrFun List.modifyHead_id _).symm
  | cons d x ih =>
    rw [List.mem_cons, not_or] at absent
    have other : (d == b) = false := beq_eq_false_iff_ne.mpr (Ne.symm absent.1)
    rw [List.cons_append, List.splitOn_cons_eq_if_modifyHead, other, ih absent.2]
    simp [List.modifyHead_modifyHead, Function.comp_def]

theorem splitOn_utf8 (ascii : sep.toNat < 0x80) (s : List Char) :
    (utf8 s).splitOn (UInt8.ofNat sep.toNat) = (splitAt sep s).map utf8 := by
  induction s with
  | nil => simp [splitAt, splitWhen]
  | cons c s ih =>
    by_cases same : c = sep
    · subst same
      rw [utf8_cons, utf8EncodeChar_of_ascii ascii, List.singleton_append,
        List.splitOn_cons_eq_if_modifyHead, if_pos (beq_self_eq_true _), ih]
      simp [splitAt, splitWhen]
    · obtain ⟨piece, pieces, rest, whole⟩ :=
        splitWhen_cons_of_false (p := (· == sep)) (beq_eq_false_iff_ne.mpr same) s
      rw [utf8_cons, splitOn_append_of_not_mem (not_mem_utf8EncodeChar ascii same), ih, splitAt,
        splitAt, whole, rest]
      simp

end Inventory.Text
