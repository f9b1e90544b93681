import Inventory.Proofs.Decimal
import Inventory.Toml.Numeral

/-! An integer at the end of its line is read as that integer. Dates, times and floating-point
numbers are tried first, and none of them is found there. -/
namespace Inventory.Toml

open Decimal (Digits digits_toDigits)
open Text (dropLiteral?)

variable {ds rest : List Char} {n : Nat}

def EndsLine (s : List Char) : Prop := ∃ ds rest, Digits ds ∧ s = ds ++ '\n' :: rest

theorem dropLiteral?_of_endsLine {s : List Char} (ends : EndsLine s) {c : Char}
    (digit : c.isDigit = false) (newline : c ≠ '\n') : dropLiteral? [c] s = none := by
  obtain ⟨ds, rest, digits, rfl⟩ := ends
  cases ds with
  | nil => exact if_neg newline
  | cons d ds =>
    have other : c ≠ d := by
      rintro rfl
      rw [digits c List.mem_cons_self] at digit
      cases digit
    exact if_neg other

theorem endsLine_of_fixedDigits? {s s' : List Char} {width k : Nat} (ends : EndsLine s)
    (read : fixedDigits? width s = some (k, s')) : EndsLine s' := by
  obtain ⟨ds, rest, digits, rfl⟩ := ends
  rw [fixedDigits?] at read
  split at read
  next all =>
    obtain ⟨_, rfl⟩ := Prod.mk.inj (Option.some.inj read)
    simp only [Bool.and_eq_true, decide_eq_true_eq] at all
    have short : width ≤ ds.length := Nat.le_of_not_lt fun long => by
      have newline : '\n' ∈ (ds ++ '\n' :: rest).take width := by
        rw [List.take_append, List.mem_append, List.take_cons (by omega)]
        exact .inr List.mem_cons_self
      cases List.all_eq_true.mp all.2 _ newline
    refine ⟨ds.drop width, rest, fun c member => digits c (List.mem_of_mem_drop member), ?_⟩
    exact List.drop_append_of_le_length short
  next => cases read

theorem date?_of_endsLine {s : List Char} (ends : EndsLine s) : date? s = none := by
  rw [date?]
  cases year : fixedDigits? 4 s with
  | none => rfl
  | some p =>
    have stuck := dropLiteral?_of_endsLine (c := '-') (endsLine_of_fixedDigits? ends year) rfl
      (by decide)
    simp only [Option.bind_eq_bind, Option.bind_some, stuck]
    rfl

theorem time?_of_endsLine {s : List Char} (ends : EndsLine s) : time? s = none := by
  rw [time?, atMost?]
  cases hour : fixedDigits? 2 s with
  | none => rfl
  | some p =>
    have stuck := dropLiteral?_of_endsLine (c := ':') (endsLine_of_fixedDigits? ends hour) rfl
      (by decide)
    simp only [Option.bind_eq_bind, Option.bind_some]
    split
    · simp only [Option.pure_def, Option.bind_some, stuck]
      rfl
    · rfl

theorem datetime?_of_endsLine {s : List Char} (ends : EndsLine s) : datetime? s = none := by
  rw [datetime?, date?_of_endsLine ends, time?_of_endsLine ends]
  rfl

theorem digitRun?_append (digits : Digits ds) (some : ds ≠ []) (rest : List Char) :
    digitRun? Char.isDigit (ds ++ '\n' :: rest) = .some (ds, '\n' :: rest) := by
  induction ds with
  | nil => exact absurd rfl some
  | cons d ds ih =>
    obtain ⟨first, others⟩ := List.forall_mem_cons.mp digits
    cases ds with
    | nil =>
      rw [List.singleton_append, digitRun?, first]
      · rfl
      · decide
    | cons e ds =>
      have second : e.isDigit = true := others e List.mem_cons_self
      have plain : e ≠ '_' := by
        rintro rfl
        cases second
      have read := ih others (List.cons_ne_nil e ds)
      rw [List.cons_append] at read
      rw [List.cons_append, List.cons_append, digitRun?, first]
      · simp [second, read]
      · exact plain

theorem sign_digits (digits : Digits ds) (some : ds ≠ []) (rest : List Char) :
    sign (ds ++ rest) = (false, ds ++ rest) := by
  obtain ⟨d, ds, rfl⟩ := List.exists_cons_of_ne_nil some
  have digit : d.isDigit = true := digits d List.mem_cons_self
  unfold sign
  split
  next same =>
    obtain ⟨rfl, _⟩ := List.cons.inj same
    cases digit
  next same =>
    obtain ⟨rfl, _⟩ := List.cons.inj same
    cases digit
  next => rfl

/-- The first digit of a number. -/
theorem exists_toDigits (n : Nat) :
    ∃ d ds, Nat.toDigits 10 n = d :: ds ∧ d.isDigit = true ∧ (0 < n → d ≠ '0') := by
  obtain ⟨d, ds, split⟩ := List.exists_cons_of_ne_nil (Nat.toDigits_ne_nil (n := n) (b := 10))
  refine ⟨d, ds, split, digits_toDigits n d (split ▸ List.mem_cons_self), fun pos zero => ?_⟩
  have first := Decimal.head?_toDigits_ne pos
  rw [split] at first
  exact first (congrArg some zero)

theorem signedRun?_toDigits (n : Nat) (rest : List Char) :
    signedRun? (Nat.toDigits 10 n ++ '\n' :: rest) =
      some (false, Nat.toDigits 10 n, '\n' :: rest) := by
  have plain := sign_digits (digits_toDigits n) Nat.toDigits_ne_nil ('\n' :: rest)
  rcases Nat.eq_zero_or_pos n with rfl | pos
  · rfl
  · have read := digitRun?_append (digits_toDigits n) Nat.toDigits_ne_nil rest
    obtain ⟨d, ds, split, _, other⟩ := exists_toDigits n
    rw [split, List.cons_append] at plain read ⊢
    rw [signedRun?, plain]
    simp [other pos, read]

theorem natOfRun_eq (digits : Digits ds) : natOfRun 10 ds = Decimal.natOfDigits ds := by
  have all (ds : List Char) (digits : Digits ds) (k : Nat) :
      ds.foldl (fun n d => n * 10 + (hexValue? d).getD 0) k =
        ds.foldl (fun n d => n * 10 + (d.toNat - '0'.toNat)) k := by
    induction ds generalizing k with
    | nil => rfl
    | cons d ds ih =>
      obtain ⟨first, others⟩ := List.forall_mem_cons.mp digits
      have value : hexValue? d = some (d.toNat - '0'.toNat) := if_pos first
      rw [List.foldl_cons, List.foldl_cons, value, ih others]
      rfl
  exact all ds digits 0

theorem float?_toDigits (n : Nat) (rest : List Char) :
    float? (Nat.toDigits 10 n ++ '\n' :: rest) = none := by
  rw [float?, signedRun?_toDigits]
  rfl

theorem specialFloat?_toDigits (n : Nat) (rest : List Char) :
    specialFloat? (Nat.toDigits 10 n ++ '\n' :: rest) = none := by
  obtain ⟨d, ds, split, digit, _⟩ := exists_toDigits n
  rw [specialFloat?, sign_digits (digits_toDigits n) Nat.toDigits_ne_nil, split, List.cons_append]
  split
  next same =>
    obtain ⟨rfl, _⟩ := List.cons.inj same
    cases digit
  next same =>
    obtain ⟨rfl, _⟩ := List.cons.inj same
    cases digit
  next => rfl

theorem integerInRange_natCast (small : n < Word.signedLimit64) : integerInRange n = true := by
  rw [integerInRange]
  generalize Word.signedLimit64 = limit at small ⊢
  have low : -(limit : Int) ≤ n := by omega
  have high : (n : Int) < limit := by omega
  rw [decide_eq_true low, decide_eq_true high]
  rfl

/-- A zero in front is followed by nothing that marks another base. -/
theorem toDigits_ne_marked (n : Nat) (rest : List Char) {c : Char} (newline : c ≠ '\n')
    (s : List Char) : Nat.toDigits 10 n ++ '\n' :: rest ≠ '0' :: c :: s := by
  intro same
  rcases Nat.eq_zero_or_pos n with rfl | pos
  · exact newline (List.cons.inj (List.cons.inj same).2).1.symm
  · obtain ⟨d, ds, split, _, other⟩ := exists_toDigits n
    rw [split] at same
    exact other pos (List.cons.inj same).1

theorem integer?_toDigits (small : n < Word.signedLimit64) (rest : List Char) :
    integer? (Nat.toDigits 10 n ++ '\n' :: rest) = some (.integer n, '\n' :: rest) := by
  have value : natOfRun 10 (Nat.toDigits 10 n) = n := by
    rw [natOfRun_eq (digits_toDigits n), Decimal.natOfDigits_toDigits]
  have ranged : ranged? n ('\n' :: rest) = some (.integer n, '\n' :: rest) :=
    if_pos (integerInRange_natCast small)
  unfold integer?
  -- The first three cases are the marks of another base.
  split
  next same => exact absurd same (toDigits_ne_marked n rest (by decide) _)
  next same => exact absurd same (toDigits_ne_marked n rest (by decide) _)
  next same => exact absurd same (toDigits_ne_marked n rest (by decide) _)
  next =>
    rw [signedRun?_toDigits, Option.bind_some]
    dsimp only
    rw [if_neg Bool.false_ne_true, value]
    exact ranged

theorem numeral?_toDigits (small : n < Word.signedLimit64) (rest : List Char) :
    numeral? (Nat.toDigits 10 n ++ '\n' :: rest) = some (.integer n, '\n' :: rest) := by
  have ends : EndsLine (Nat.toDigits 10 n ++ '\n' :: rest) := ⟨_, rest, digits_toDigits n, rfl⟩
  rw [numeral?, datetime?_of_endsLine ends, float?_toDigits, specialFloat?_toDigits,
    integer?_toDigits small]
  rfl

end Inventory.Toml
