import Inventory.Proofs.Decimal
import Inventory.Json.Printer
import Inventory.Json.Reader

/-! Blanks, ends and numbers of JSON texts. An integer is read back as itself if what follows it
goes on with no digit, point or exponent mark. -/
namespace Inventory.Json

variable {c : Char} {n fuel : Nat} {sp rest : List Char}

def Blank (sp : List Char) : Prop := ∀ c ∈ sp, isSpace c = true

inductive Stop : List Char → Prop where
  | nil : Stop []
  | comma (rest : List Char) : Stop (',' :: rest)
  | newline (rest : List Char) : Stop ('\n' :: rest)

theorem blank_nil : Blank [] := fun _ member => by cases member

theorem skipSpace_append (blank : Blank sp) (shown : isSpace c = false) (rest : List Char) :
    skipSpace (sp ++ c :: rest) = c :: rest := by
  rw [skipSpace, List.dropWhile_append_of_pos blank, List.dropWhile_cons_of_neg (by simp [shown])]

theorem blank_cons_newline (blank : Blank sp) : Blank ('\n' :: sp) := by
  intro c member
  rcases List.mem_cons.mp member with rfl | member
  · rfl
  · exact blank c member

theorem digits_append {ds : List Char} (all : Decimal.Digits ds) (stop : Stop rest) :
    digits (ds ++ rest) = (ds, rest) := by
  have after : rest.takeWhile Char.isDigit = [] ∧ rest.dropWhile Char.isDigit = rest := by
    cases stop <;> exact ⟨rfl, rfl⟩
  rw [digits, Decimal.takeWhile_digits all after.1, List.dropWhile_append_of_pos all, after.2]

theorem number?_toDigits (n : Nat) (stop : Stop rest) (negative : Bool) :
    number? ((if negative then ['-'] else []) ++ (Nat.toDigits 10 n ++ rest)) =
      some (⟨negative, Nat.toDigits 10 n, [], none⟩, rest) := by
  have read := digits_append (Decimal.digits_toDigits n) stop
  have fraction : fraction? rest = some ([], rest) := by cases stop <;> rfl
  have exponent : exponent? rest = some (none, rest) := by cases stop <;> rfl
  obtain ⟨d, ds, split⟩ := List.exists_cons_of_ne_nil (Nat.toDigits_ne_nil (n := n) (b := 10))
  have unsigned : d ≠ '-' := by
    rintro rfl
    exact absurd (Decimal.digits_toDigits n '-' (split ▸ List.mem_cons_self)) (by decide)
  have leading : ds.length = 0 ∨ d ≠ '0' := by
    rcases Nat.eq_zero_or_pos n with rfl | pos
    · rw [Nat.toDigits_zero] at split
      exact .inl (by rw [← (List.cons.inj split).2]; rfl)
    · have first := Decimal.head?_toDigits_ne pos
      rw [split] at first
      exact .inr fun zero => first (congrArg some zero)
  rw [split] at read ⊢
  rw [List.cons_append] at read ⊢
  have plain : 0 < ds.length → d ≠ '0' := fun long => leading.resolve_left (by omega)
  cases negative with
  | true => simpa [number?, read, fraction, exponent] using plain
  | false => simpa [number?, unsigned, read, fraction, exponent] using plain

theorem ofNumber_toDigits (negative : Bool) (small : n < Decimal.doubleLimit)
    (nonzero : negative = true → n ≠ 0) : ofNumber ⟨negative, Nat.toDigits 10 n, [], none⟩ =
      .int (if negative then -(n : Int) else n) := by
  have inRange : (Decimal.mk negative (Nat.toDigits 10 n) [] none).inRange = true := by
    simp [Decimal.inRange, Decimal.natOfDigits_toDigits, small]
  have zero : (Decimal.mk negative (Nat.toDigits 10 n) [] none).isZero = (n == 0) := by
    rw [Decimal.isZero, List.append_nil, Decimal.natOfDigits_toDigits]
  cases negative with
  | true => simp [ofNumber, inRange, zero, nonzero rfl, Decimal.natOfDigits_toDigits]
  | false => simp [ofNumber, inRange, Decimal.natOfDigits_toDigits]

theorem isSpace_of_isDigit (digit : c.isDigit = true) : isSpace c = false := by
  have bounds : 48 ≤ c.toNat ∧ c.toNat ≤ 57 := Char.isDigit_iff_toNat.mp digit
  rw [← Bool.not_eq_true, isSpace]
  simp only [Bool.or_eq_true, decide_eq_true_eq, not_or]
  refine ⟨⟨⟨?_, ?_⟩, ?_⟩, ?_⟩ <;> (rintro rfl; exact absurd bounds (by decide))

/-- A value that starts with none of the letters and marks of the others is a number. -/
theorem value?_number (blank : Blank sp) (first : c = '-' ∨ c.isDigit = true) (s : List Char) :
    value? (fuel + 1) (sp ++ c :: s) =
      (number? (c :: s)).map fun (d, rest) => (ofNumber d, rest) := by
  rcases first with rfl | digit
  · rw [value?, skipSpace_append blank rfl]
    rfl
  · have other (m : Char) (mark : m.isDigit = false) : c ≠ m := by
      rintro rfl
      rw [digit] at mark
      cases mark
    rw [value?, skipSpace_append blank (isSpace_of_isDigit digit)]
    simp [other 'n' rfl, other 't' rfl, other 'f' rfl, other '"' rfl, other '[' rfl,
      other '\x7b' rfl]

/-- A sign, if it is needed, and the digits. -/
theorem toList_toString_int (value : Int) : (toString value).toList =
    (if decide (value < 0) then ['-'] else []) ++ Nat.toDigits 10 value.natAbs := by
  rw [Int.toString_eq_repr, Int.repr_eq_if]
  split
  next positive =>
    have same : value.toNat = value.natAbs := by omega
    simp [same, Nat.repr_eq_ofList_toDigits, positive]
  next negative =>
    have same : (-value).toNat = value.natAbs := by omega
    simp [same, Nat.repr_eq_ofList_toDigits, Int.not_le.mp negative]

theorem exists_first_int (value : Int) :
    ∃ c s, (toString value).toList = c :: s ∧ (c = '-' ∨ c.isDigit = true) := by
  rw [toList_toString_int]
  split
  · exact ⟨_, _, rfl, .inl rfl⟩
  · obtain ⟨d, ds, digits⟩ := List.exists_cons_of_ne_nil
      (Nat.toDigits_ne_nil (n := value.natAbs) (b := 10))
    exact ⟨d, ds, digits, .inr (Decimal.digits_toDigits _ d (digits ▸ List.mem_cons_self))⟩

theorem value?_int {value : Int} (small : value.natAbs < Decimal.doubleLimit) (blank : Blank sp)
    (stop : Stop rest) :
    value? (fuel + 1) (sp ++ ((toString value).toList ++ rest)) = some (.int value, rest) := by
  have read := number?_toDigits value.natAbs stop (decide (value < 0))
  have number := ofNumber_toDigits (decide (value < 0)) small (by simp; omega)
  have same : (if decide (value < 0) then -(value.natAbs : Int) else value.natAbs) = value := by
    split
    next negative =>
      have below : value < 0 := of_decide_eq_true negative
      omega
    next positive =>
      have above : ¬ value < 0 := fun below => positive (decide_eq_true below)
      omega
  rw [same] at number
  obtain ⟨c, s, split, first⟩ := exists_first_int value
  rw [← List.append_assoc, ← toList_toString_int, split, List.cons_append] at read
  rw [split, List.cons_append, value?_number blank first, read, Option.map_some]
  simp only [number]

end Inventory.Json
