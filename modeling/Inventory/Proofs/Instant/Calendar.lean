import Inventory.Instant
import Mathlib.Tactic.IntervalCases

/-! Days and dates. An era of 400 years has four centuries, a century 25 spans of four years, and
only the last year of a span can have a leap day, at its end. -/
namespace Inventory.Instant

theorem le_daysInMonth_february (year : Int) : 28 ≤ daysInMonth year 2 := by
  rw [daysInMonth, if_pos rfl]
  split <;> decide

/-- A day of an era by century, span, year of the span and day of the year, each from 0. -/
structure EraDay where
  century : Nat
  span : Nat
  year : Nat
  day : Nat

namespace EraDay

variable {e : EraDay}

/-- Only the last year of a span has a day 365, and of the last spans of a century only that of the
last century. -/
structure Valid (e : EraDay) : Prop where
  century : e.century ≤ 3
  span : e.span ≤ 24
  year : e.year ≤ 3
  day : e.day ≤ 365
  leap : e.day = 365 → e.year = 3 ∧ (e.span < 24 ∨ e.century = 3)

def number (e : EraDay) : Nat := 36524 * e.century + 1461 * e.span + 365 * e.year + e.day

def yearOfEra (e : EraDay) : Nat := 100 * e.century + 4 * e.span + e.year

theorem exists_of_lt {n : Nat} (small : n < 146097) : ∃ e : EraDay, e.Valid ∧ e.number = n := by
  obtain ⟨c, r, hc, hr, whole⟩ : ∃ c r, c ≤ 3 ∧ (r < 36524 ∨ (c = 3 ∧ r = 36524)) ∧
      n = 36524 * c + r :=
    ⟨min (n / 36524) 3, n - 36524 * min (n / 36524) 3, by omega, by omega, by omega⟩
  obtain ⟨q, s, hq, hs, rest⟩ : ∃ q s, q ≤ 24 ∧ s < 1461 ∧ r = 1461 * q + s :=
    ⟨r / 1461, r % 1461, by omega, by omega, by omega⟩
  obtain ⟨y, d, hy, hd, last⟩ : ∃ y d, y ≤ 3 ∧ (d < 365 ∨ (y = 3 ∧ d = 365)) ∧
      s = 365 * y + d :=
    ⟨min (s / 365) 3, s - 365 * min (s / 365) 3, by omega, by omega, by omega⟩
  refine ⟨⟨c, q, y, d⟩, ⟨hc, hq, hy, ?_, ?_⟩, ?_⟩
  · dsimp only
    omega
  · dsimp only
    omega
  · dsimp only [number]
    omega

theorem Valid.number_lt (valid : e.Valid) : e.number < 146097 := by
  obtain ⟨century, span, year, day, leap⟩ := valid
  rw [number]
  omega

theorem Valid.yearOfEra_lt (valid : e.Valid) : e.yearOfEra < 400 := by
  obtain ⟨century, span, year, -, -⟩ := valid
  rw [yearOfEra]
  omega

/-- The days before the year of an era. -/
theorem Valid.start_eq (valid : e.Valid) :
    365 * e.yearOfEra + e.yearOfEra / 4 - e.yearOfEra / 100 + e.day = e.number := by
  obtain ⟨century, span, year, -, -⟩ := valid
  rw [yearOfEra, number]
  omega

/-- Leap days, one in 1460 days, are taken out before the days are counted by years. -/
theorem Valid.yearOfEra_eq (valid : e.Valid) : (e.number - e.number / 1460 + e.number / 36524 -
    e.number / 146096) / 365 = e.yearOfEra := by
  obtain ⟨century, span, year, day, leap⟩ := valid
  have whole := number.eq_1 e
  generalize e.number = n at whole ⊢
  rw [yearOfEra]
  by_cases final : n = 146096
  · have century : e.century = 3 := by omega
    have span : e.span = 24 := by omega
    have year : e.year = 3 := by omega
    rw [final, century, span, year]
  have first : n / 36524 = e.century := by omega
  have none : n / 146096 = 0 := by omega
  have rest : n = 1460 * (25 * e.century + e.span) +
      (24 * e.century + e.span + 365 * e.year + e.day) := by omega
  rw [first, none]
  by_cases late : 1460 ≤ 24 * e.century + e.span + 365 * e.year + e.day
  · have leaps : n / 1460 = 25 * e.century + e.span + 1 := by omega
    rw [leaps]
    omega
  · have leaps : n / 1460 = 25 * e.century + e.span := by omega
    rw [leaps]
    omega

def monthFromMarch (e : EraDay) : Nat := (5 * e.day + 2) / 153

def month (e : EraDay) : Nat :=
  if e.monthFromMarch < 10 then e.monthFromMarch + 3 else e.monthFromMarch - 9

def dayOfMonth (e : EraDay) : Nat := e.day - (153 * e.monthFromMarch + 2) / 5 + 1

/-- Years end with February here, so January and February belong to the next year. -/
def calendarYear (e : EraDay) (era : Int) : Int :=
  if e.month ≤ 2 then (e.yearOfEra : Int) + era * 400 + 1 else (e.yearOfEra : Int) + era * 400

theorem Valid.monthFromMarch_lt (valid : e.Valid) : e.monthFromMarch < 12 := by
  have day := valid.day
  rw [monthFromMarch]
  omega

theorem Valid.month_bounds (valid : e.Valid) : 1 ≤ e.month ∧ e.month ≤ 12 := by
  have small := valid.monthFromMarch_lt
  rw [month]
  split <;> omega

theorem Valid.isLeapYear (valid : e.Valid) (era : Int) (last : e.day = 365) :
    isLeapYear ((e.yearOfEra : Int) + era * 400 + 1) = true := by
  obtain ⟨-, span, -, -, leap⟩ := valid
  obtain ⟨year, kind⟩ := leap last
  simp only [Instant.isLeapYear, yearOfEra, year, Bool.and_eq_true, Bool.or_eq_true, beq_iff_eq,
    bne_iff_ne]
  omega

theorem Valid.dayOfMonth_le (valid : e.Valid) (era : Int) :
    e.dayOfMonth ≤ daysInMonth (e.calendarYear era) e.month := by
  have small := valid.monthFromMarch_lt
  have day := valid.day
  have leap := valid.isLeapYear era
  have here := monthFromMarch.eq_1 e
  rw [dayOfMonth, calendarYear, month]
  generalize e.monthFromMarch = m at small here
  by_cases february : m = 11
  · subst february
    have last : e.day - (153 * 11 + 2) / 5 + 1 ≤ if e.day = 365 then 29 else 28 := by
      split <;> omega
    refine last.trans ?_
    split
    next full => simp [daysInMonth, leap full]
    next => exact le_daysInMonth_february _
  · interval_cases m
    all_goals
      simp [daysInMonth]
      omega

end EraDay

variable {e : EraDay}

theorem exists_eraDay (day : Int) : ∃ (era : Int) (e : EraDay), e.Valid ∧
    day = era * 146097 + e.number - 719468 := by
  obtain ⟨e, valid, number⟩ :=
    EraDay.exists_of_lt (n := ((day + 719468) % 146097).toNat) (by omega)
  refine ⟨(day + 719468) / 146097, e, valid, ?_⟩
  rw [number]
  omega

theorem dateOfDay_eq (valid : e.Valid) (era : Int) :
    dateOfDay (era * 146097 + e.number - 719468) =
      (e.calendarYear era, e.month, e.dayOfMonth) := by
  have small := valid.number_lt
  have start := valid.start_eq
  have shifted : era * 146097 + (e.number : Int) - 719468 + 719468 = era * 146097 + e.number := by
    omega
  have eras : (era * 146097 + (e.number : Int)).fdiv 146097 = era := by
    rw [Int.fdiv_eq_ediv_of_nonneg _ (by decide)]
    omega
  have rest : (era * 146097 + (e.number : Int) - era * 146097).toNat = e.number := by omega
  have day : e.number - (365 * e.yearOfEra + e.yearOfEra / 4 - e.yearOfEra / 100) = e.day := by
    omega
  simp only [dateOfDay, shifted, eras, rest, valid.yearOfEra_eq, day]
  rfl

theorem dayOfDate_eq (valid : e.Valid) (era : Int) :
    dayOfDate (e.calendarYear era) e.month e.dayOfMonth =
      era * 146097 + e.number - 719468 := by
  have start := valid.start_eq
  have years := valid.yearOfEra_lt
  have months := valid.monthFromMarch_lt
  have march : (e.month + 9) % 12 = e.monthFromMarch := by
    rw [EraDay.month]
    split <;> omega
  have year : (if e.month ≤ 2 then e.calendarYear era - 1 else e.calendarYear era) =
      e.yearOfEra + era * 400 := by
    rw [EraDay.calendarYear]
    split <;> omega
  have eras : ((e.yearOfEra : Int) + era * 400).fdiv 400 = era := by
    rw [Int.fdiv_eq_ediv_of_nonneg _ (by decide)]
    omega
  have here := EraDay.monthFromMarch.eq_1 e
  have day : (153 * e.monthFromMarch + 2) / 5 + e.dayOfMonth - 1 = e.day := by
    rw [EraDay.dayOfMonth]
    omega
  simp only [dayOfDate, year, eras, march]
  omega

/-- Every day has a date, and the date names that day. -/
theorem dayOfDate_dateOfDay (day : Int) :
    dayOfDate (dateOfDay day).1 (dateOfDay day).2.1 (dateOfDay day).2.2 = day := by
  obtain ⟨era, e, valid, rfl⟩ := exists_eraDay day
  rw [dateOfDay_eq valid, dayOfDate_eq valid]

theorem dateOfDay_bounds (day : Int) : 1 ≤ (dateOfDay day).2.1 ∧ (dateOfDay day).2.1 ≤ 12 ∧
    1 ≤ (dateOfDay day).2.2 ∧
      (dateOfDay day).2.2 ≤ daysInMonth (dateOfDay day).1 (dateOfDay day).2.1 := by
  obtain ⟨era, e, valid, rfl⟩ := exists_eraDay day
  rw [dateOfDay_eq valid]
  obtain ⟨first, last⟩ := valid.month_bounds
  exact ⟨first, last, Nat.le_add_left 1 _, valid.dayOfMonth_le era⟩

end Inventory.Instant
