import Inventory.Proofs.Decimal
import Inventory.Proofs.Instant.Calendar
import Inventory.Proofs.Text.Trim

/-! The text of an instant is read back as that instant. -/
namespace Inventory.Instant

open Text Decimal

variable {width n : Nat} {ds rest : List Char} {c : Char}

theorem isBlankChar_of_isDigit (digit : c.isDigit = true) : isBlankChar c = false := by
  have bounds : 48 ≤ c.toNat ∧ c.toNat ≤ 57 := Char.isDigit_iff_toNat.mp digit
  exact isBlankChar_eq_false (by omega) (by omega)

theorem trimStart_of_first (shown : isBlankChar c = false) (rest : List Char) :
    trimStart (c :: rest) = c :: rest := by
  rw [trimStart, List.dropWhile_cons_of_neg (by simp [shown])]

theorem toList_padded (width n : Nat) : (padded width n).toList =
    List.replicate (width - (Nat.toDigits 10 n).length) '0' ++ Nat.toDigits 10 n := by
  have zeros (k : Nat) : ("".pushn '0' k).toList = List.replicate k '0' := by
    rw [String.pushn_eq_repeat_push]
    induction k with
    | zero => rfl
    | succ k ih => rw [Nat.repeat, String.toList_push, ih, List.replicate_succ']
  rw [padded, String.toList_append, zeros, Nat.toString_eq_ofList_toDigits, String.toList_ofList,
    String.length_ofList]

theorem digits_padded (width n : Nat) : Digits (padded width n).toList := by
  intro c member
  rw [toList_padded, List.mem_append] at member
  rcases member with front | back
  · rw [List.eq_of_mem_replicate front]
    rfl
  · exact digits_toDigits n c back

theorem length_padded (pos : 0 < width) (small : n < 10 ^ width) :
    (padded width n).toList.length = width := by
  have short : (Nat.toDigits 10 n).length ≤ width :=
    (Nat.length_toDigits_le_iff (by decide) pos).mpr small
  rw [toList_padded, List.length_append, List.length_replicate]
  omega

theorem natOfDigits_padded (width n : Nat) : natOfDigits (padded width n).toList = n := by
  rw [toList_padded, natOfDigits_replicate_append, natOfDigits_toDigits]

theorem exists_digit_padded (pos : 0 < width) (small : n < 10 ^ width) :
    ∃ c cs, (padded width n).toList = c :: cs ∧ c.isDigit = true := by
  obtain ⟨c, cs, split⟩ := List.exists_cons_of_length_pos
    (l := (padded width n).toList) (by rw [length_padded pos small]; exact pos)
  exact ⟨c, cs, split, digits_padded width n c (split ▸ List.mem_cons_self)⟩

/-- A numeral of all the digits that are read. -/
theorem number?_padded (pos : 0 < width) (small : n < 10 ^ width) (rest : List Char) :
    number? width ((padded width n).toList ++ rest) = some (n, rest) := by
  have length := length_padded pos small
  obtain ⟨c, cs, split, digit⟩ := exists_digit_padded pos small
  have start : trimStart ((padded width n).toList ++ rest) = (padded width n).toList ++ rest := by
    rw [split, List.cons_append, trimStart_of_first (isBlankChar_of_isDigit digit)]
  have taken : ((padded width n).toList ++ rest).take width = (padded width n).toList :=
    List.take_left' length
  have all := takeWhile_digits (digits_padded width n) (List.takeWhile_nil (p := Char.isDigit))
  rw [List.append_nil] at all
  have filled : (padded width n).toList.isEmpty = false := by
    rw [split]
    rfl
  simp only [number?, start, taken, all, filled, length, natOfDigits_padded,
    List.drop_left' length]
  rfl

theorem year?_padded (small : n < 10000) (rest : List Char) :
    year? ((padded 4 n).toList ++ rest) = some ((n : Int), rest) := by
  have read := number?_padded (show 0 < 4 by decide) small rest
  obtain ⟨c, cs, split, digit⟩ := exists_digit_padded (show 0 < 4 by decide) small
  have bounds : 48 ≤ c.toNat ∧ c.toNat ≤ 57 := Char.isDigit_iff_toNat.mp digit
  have start : trimStart (c :: (cs ++ rest)) = c :: (cs ++ rest) :=
    trimStart_of_first (isBlankChar_of_isDigit digit) _
  rw [split, List.cons_append] at read ⊢
  simp only [year?, start]
  split
  next eq =>
    obtain ⟨rfl, -⟩ := List.cons.inj eq
    exact absurd bounds (by decide)
  next eq =>
    obtain ⟨rfl, -⟩ := List.cons.inj eq
    exact absurd bounds (by decide)
  next => rw [read, Option.map_some]

theorem mark?_self (shown : isBlankChar c = false) (rest : List Char) :
    mark? c (c :: rest) = some rest := by
  simp [mark?, trimStart_of_first shown, dropLiteral?]

/-- A fraction of at most nine digits. -/
theorem nanosecond?_padded (pos : 0 < width) (short : width ≤ 9) (small : n < 10 ^ width)
    (rest : List Char) : nanosecond? ('.' :: ((padded width n).toList ++ 'Z' :: rest)) =
      some (n * 10 ^ (9 - width), 'Z' :: rest) := by
  have length := length_padded pos small
  have digits := digits_padded width n
  obtain ⟨c, cs, split, digit⟩ := exists_digit_padded pos small
  have taken : (((padded width n).toList ++ 'Z' :: rest).take 9).takeWhile Char.isDigit =
      (padded width n).toList := by
    rw [List.take_append, List.take_of_length_le (by omega)]
    apply takeWhile_digits digits
    cases 9 - (padded width n).toList.length <;> rfl
  have filled : (padded width n).toList.isEmpty = false := by
    rw [split]
    rfl
  simp only [nanosecond?, taken, filled, length, natOfDigits_padded, List.drop_left' length]
  rfl

theorem nanosecond?_fractionText (small : n < 1000000000) (rest : List Char) :
    nanosecond? ((fractionText n).toList ++ 'Z' :: rest) = some (n, 'Z' :: rest) := by
  have point (width k : Nat) (rest : List Char) : ("." ++ padded width k).toList ++ rest =
      '.' :: ((padded width k).toList ++ rest) := by
    rw [String.toList_append]
    rfl
  rw [fractionText]
  split
  next zero => rw [zero]; rfl
  next =>
    split
    next thousands =>
      rw [point, nanosecond?_padded (by decide) (by decide) (by omega)]
      congr 2
      omega
    next =>
      split
      next thousands =>
        rw [point, nanosecond?_padded (by decide) (by decide) (by omega)]
        congr 2
        omega
      next =>
        rw [point, nanosecond?_padded (by decide) (by decide) (by omega)]
        congr 2
        omega

variable {t : Instant}

/-- The second is one of its day. Any second can be a leap second, which lasts twice as long. -/
structure InRange (t : Instant) : Prop where
  second : t.second < 86400
  nanosecond : t.nanosecond < 2000000000

/-- Only the last second of a minute is a leap second. Its text names the second 60. -/
structure Valid (t : Instant) : Prop extends InRange t where
  leap : 1000000000 ≤ t.nanosecond → t.second % 60 = 59

def HasPlainYear (t : Instant) : Prop :=
  0 ≤ (dateOfDay t.day).1 ∧ (dateOfDay t.day).1 ≤ 9999

theorem ofLocal?_self (valid : t.Valid) (plain : t.HasPlainYear) :
    ofLocal? (dateOfDay t.day).1 (dateOfDay t.day).2.1 (dateOfDay t.day).2.2 (t.second / 3600)
      (t.second / 60 % 60) (t.second % 60 + t.nanosecond / 1000000000)
      (t.nanosecond % 1000000000) 0 = some t := by
  obtain ⟨low, high⟩ := plain
  obtain ⟨month, month', day, day'⟩ := dateOfDay_bounds t.day
  obtain ⟨⟨second, nanosecond⟩, last⟩ := valid
  have inRange : yearInRange (dateOfDay t.day).1 = true := by
    simp only [yearInRange, Bool.and_eq_true, decide_eq_true_eq]
    omega
  have hours : t.second / 3600 ≤ 23 := by omega
  have minutes : t.second / 60 % 60 ≤ 59 := by omega
  have seconds : t.second % 60 + t.nanosecond / 1000000000 ≤ 60 := by omega
  -- A second 60 is the last whole second, on which the nanoseconds count on.
  have leap : ((if t.second % 60 + t.nanosecond / 1000000000 = 60 then 59
      else t.second % 60 + t.nanosecond / 1000000000) = t.second % 60) ∧
      t.nanosecond % 1000000000 + (if t.second % 60 + t.nanosecond / 1000000000 = 60
        then 1000000000 else 0) = t.nanosecond := by
    split <;> omega
  obtain ⟨whole, parts⟩ := leap
  have clock : t.second / 3600 * 3600 + t.second / 60 % 60 * 60 + t.second % 60 = t.second := by
    omega
  have days : (t.day * 86400 + (t.second : Int)).fdiv 86400 = t.day := by
    rw [Int.fdiv_eq_ediv_of_nonneg _ (by decide)]
    omega
  have rest : ((t.day * 86400 + (t.second : Int)).fmod 86400).toNat = t.second := by
    rw [Int.fmod_eq_emod_of_nonneg _ (by decide)]
    omega
  simp only [ofLocal?, inRange, month, month', day, day', hours, minutes, seconds, beq_iff_eq,
    whole, parts, clock, dayOfDate_dateOfDay, Int.sub_zero, days, rest]
  rfl

/-- The parts of a text and the marks between them. -/
theorem toList_text (plain : t.HasPlainYear) : t.text.toList =
    (padded 4 (dateOfDay t.day).1.toNat).toList ++ '-' ::
      ((padded 2 (dateOfDay t.day).2.1).toList ++ '-' ::
      ((padded 2 (dateOfDay t.day).2.2).toList ++ 'T' ::
      ((padded 2 (t.second / 3600)).toList ++ ':' ::
      ((padded 2 (t.second / 60 % 60)).toList ++ ':' ::
      ((padded 2 (t.second % 60 + t.nanosecond / 1000000000)).toList ++
      ((fractionText (t.nanosecond % 1000000000)).toList ++ ['Z'])))))) := by
  obtain ⟨low, high⟩ := plain
  have year : yearText (dateOfDay t.day).1 = padded 4 (dateOfDay t.day).1.toNat := by
    simp [yearText, low, high]
  simp [text, dateText, clockText, year]

theorem ofText?_text (valid : t.Valid) (plain : t.HasPlainYear) : ofText? t.text = some t := by
  obtain ⟨-, month, -, day⟩ := dateOfDay_bounds t.day
  have again := ofLocal?_self valid plain
  obtain ⟨⟨second, nanosecond⟩, last⟩ := valid
  have shape := toList_text plain
  obtain ⟨low, high⟩ := plain
  have year : ((dateOfDay t.day).1.toNat : Int) = (dateOfDay t.day).1 := Int.toNat_of_nonneg low
  have days : daysInMonth (dateOfDay t.day).1 (dateOfDay t.day).2.1 ≤ 31 := by
    rw [daysInMonth]
    split
    · split <;> decide
    · split <;> decide
  have dash : isBlankChar '-' = false := by decide
  have colon : isBlankChar ':' = false := by decide
  have zone : isBlankChar 'Z' = false := by decide
  rw [ofText?, shape, year?_padded (by omega)]
  simp only [Option.bind_eq_bind, Option.bind_some, mark?_self dash, year]
  rw [number?_padded (by decide) (by omega)]
  simp only [Option.bind_some, mark?_self dash]
  rw [number?_padded (by decide) (by omega)]
  simp only [Option.bind_some]
  rw [number?_padded (by decide) (by omega)]
  simp only [Option.bind_some, mark?_self colon]
  rw [number?_padded (by decide) (by omega)]
  simp only [Option.bind_some, mark?_self colon]
  rw [number?_padded (by decide) (by omega)]
  simp only [Option.bind_some]
  rw [nanosecond?_fractionText (by omega)]
  simp only [Option.bind_some, trimStart_of_first zone]
  exact again

/-- The instant that the text names. A leap second within a minute runs on into the next second. -/
def settled (t : Instant) : Instant :=
  if 1000000000 ≤ t.nanosecond ∧ t.second % 60 ≠ 59 then
    { t with second := t.second + 1, nanosecond := t.nanosecond - 1000000000 }
  else t

theorem settled_eq_iff :
    t.settled = t ↔ (1000000000 ≤ t.nanosecond → t.second % 60 = 59) := by
  unfold settled
  split
  next inner =>
    refine iff_of_false (fun same => ?_) fun last => inner.2 (last inner.1)
    have second := congrArg Instant.second same
    dsimp only at second
    omega
  next outer => exact iff_of_true rfl fun long => not_not.mp fun inner => outer ⟨long, inner⟩

theorem InRange.valid_settled (inRange : t.InRange) : t.settled.Valid := by
  obtain ⟨second, nanosecond⟩ := inRange
  unfold settled
  split
  next inner => exact ⟨⟨by dsimp only; omega, by dsimp only; omega⟩, by dsimp only; omega⟩
  next outer => exact ⟨⟨second, nanosecond⟩, by omega⟩

theorem day_settled (t : Instant) : t.settled.day = t.day := by
  unfold settled
  split <;> rfl

theorem InRange.text_settled (inRange : t.InRange) : t.settled.text = t.text := by
  obtain ⟨second, nanosecond⟩ := inRange
  unfold settled
  split
  next inner =>
    have hours : (t.second + 1) / 3600 = t.second / 3600 := by omega
    have minutes : (t.second + 1) / 60 % 60 = t.second / 60 % 60 := by omega
    have seconds : (t.second + 1) % 60 + (t.nanosecond - 1000000000) / 1000000000 =
        t.second % 60 + t.nanosecond / 1000000000 := by omega
    have fraction : (t.nanosecond - 1000000000) % 1000000000 = t.nanosecond % 1000000000 := by
      omega
    simp only [text, dateText, clockText, hours, minutes, seconds, fraction]
  next => rfl

variable {s : List Char}

theorem lt_of_nanosecond? (read : nanosecond? s = some (n, rest)) : n < 1000000000 := by
  unfold nanosecond? at read
  split at read
  next s =>
    dsimp only at read
    split at read
    · cases read
    · cases read
      have digits : Digits ((s.take 9).takeWhile Char.isDigit) :=
        List.all_eq_true.mp List.all_takeWhile
      have short : ((s.take 9).takeWhile Char.isDigit).length ≤ 9 := by
        have cut := List.takeWhile_prefix Char.isDigit (l := s.take 9)
        refine cut.length_le.trans ?_
        rw [List.length_take]
        omega
      calc natOfDigits ((s.take 9).takeWhile Char.isDigit) *
            10 ^ (9 - ((s.take 9).takeWhile Char.isDigit).length)
          < 10 ^ ((s.take 9).takeWhile Char.isDigit).length *
            10 ^ (9 - ((s.take 9).takeWhile Char.isDigit).length) :=
              Nat.mul_lt_mul_of_pos_right (natOfDigits_lt digits) (Nat.pow_pos (by decide))
        _ = 1000000000 := by rw [← Nat.pow_add, Nat.add_sub_cancel' short]
  next =>
    cases read
    decide

/-- Offsets are of whole minutes. -/
theorem emod_of_offset? {offset : Int} (read : offset? s = some (offset, rest)) :
    offset % 60 = 0 := by
  have whole (sign : Int) (hours minutes : Nat) :
      (sign * (hours * 3600 + minutes * 60 : Nat)) % 60 = 0 := by
    have minutes : ((hours * 3600 + minutes * 60 : Nat) : Int) =
        60 * ((hours * 60 + minutes : Nat) : Int) := by omega
    rw [minutes, Int.mul_left_comm, Int.mul_emod_right]
  unfold offset? at read
  split at read
  · cases read
    rfl
  · cases read
    rfl
  · split at read
    · cases read
      rfl
    · dsimp only at read
      split at read
      case h_4 => cases read
      all_goals
        simp only [Option.bind_eq_bind, Option.bind_some, Option.bind_eq_some_iff] at read
        obtain ⟨⟨hours, _⟩, _, ⟨minutes, _⟩, _, read⟩ := read
        obtain ⟨_, made⟩ := Option.ite_none_right_eq_some.mp read
        cases made
        exact whole _ hours minutes

theorem valid_of_ofLocal? {year offset : Int} {month day hour minute second nanosecond : Nat}
    (whole : offset % 60 = 0) (small : nanosecond < 1000000000)
    (read : ofLocal? year month day hour minute second nanosecond offset = some t) : t.Valid := by
  obtain ⟨bounds, inner⟩ := Option.ite_none_right_eq_some.mp read
  obtain ⟨_, made⟩ := Option.ite_none_right_eq_some.mp inner
  have bound : second ≤ 60 := by
    simp only [Bool.and_eq_true, decide_eq_true_eq] at bounds
    omega
  rw [← Option.some.inj made]
  refine ⟨⟨?_, ?_⟩, ?_⟩
  · dsimp only
    rw [Int.fmod_eq_emod_of_nonneg _ (by decide)]
    omega
  · dsimp only
    split <;> omega
  · dsimp only
    rw [Int.fmod_eq_emod_of_nonneg _ (by decide)]
    by_cases leap : second = 60
    · -- The leap second is read as the one before it, which ends its minute.
      simp only [leap, beq_self_eq_true, if_true]
      omega
    · simp only [beq_eq_false_iff_ne.mpr leap, Bool.false_eq_true, if_false]
      omega

/-- Every instant that is read from a text is valid. -/
theorem valid_of_ofText? {s : String} (read : ofText? s = some t) : t.Valid := by
  obtain ⟨⟨year, _⟩, _, read⟩ := Option.bind_eq_some_iff.mp read
  obtain ⟨⟨month, _⟩, _, read⟩ := Option.bind_eq_some_iff.mp read
  obtain ⟨⟨day, s'⟩, _, read⟩ := Option.bind_eq_some_iff.mp read
  dsimp only at read
  split at read
  case h_4 => cases read
  all_goals
    simp only [Option.bind_eq_bind, Option.bind_some, Option.bind_eq_some_iff] at read
    obtain ⟨_, _, _, _, _, _, _, fraction, _, zone, read⟩ := read
    obtain ⟨_, made⟩ := Option.ite_none_right_eq_some.mp read
    exact valid_of_ofLocal? (emod_of_offset? zone) (lt_of_nanosecond? fraction) made

end Inventory.Instant
