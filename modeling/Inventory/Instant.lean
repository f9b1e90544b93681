import Inventory.Decimal
import Inventory.Text.Split

/-! Points in time of the Gregorian calendar in UTC, to the nanosecond, and their texts. -/
namespace Inventory

structure Instant where
  /-- Days from 1970-01-01. -/
  day : Int
  /-- Seconds of the day, below 86400. -/
  second : Nat
  /-- Nanoseconds of the second. In a leap second they count on from a whole second. -/
  nanosecond : Nat
  deriving DecidableEq, Repr, Inhabited

namespace Instant

/-- Days from 1970-01-01 to a date. Years are counted from March, so that the leap day comes last,
in eras of 400 years. -/
def dayOfDate (year : Int) (month day : Nat) : Int :=
  let y := if month ≤ 2 then year - 1 else year
  let era := y.fdiv 400
  let yearOfEra := y - era * 400
  let monthFromMarch := (month + 9) % 12
  let dayOfYear := (153 * monthFromMarch + 2) / 5 + day - 1
  let dayOfEra := yearOfEra * 365 + yearOfEra / 4 - yearOfEra / 100 + dayOfYear
  era * 146097 + dayOfEra - 719468

/-- The date of a day: year, month and day of the month. -/
def dateOfDay (day : Int) : Int × Nat × Nat :=
  let d := day + 719468
  let era := d.fdiv 146097
  let dayOfEra := (d - era * 146097).toNat
  let yearOfEra := (dayOfEra - dayOfEra / 1460 + dayOfEra / 36524 - dayOfEra / 146096) / 365
  let dayOfYear := dayOfEra - (365 * yearOfEra + yearOfEra / 4 - yearOfEra / 100)
  let monthFromMarch := (5 * dayOfYear + 2) / 153
  let month := if monthFromMarch < 10 then monthFromMarch + 3 else monthFromMarch - 9
  let year := (yearOfEra : Int) + era * 400
  (if month ≤ 2 then year + 1 else year, month, dayOfYear - (153 * monthFromMarch + 2) / 5 + 1)

def isLeapYear (year : Int) : Bool := year % 4 == 0 && (year % 100 != 0 || year % 400 == 0)

def daysInMonth (year : Int) (month : Nat) : Nat :=
  if month = 2 then (if isLeapYear year then 29 else 28)
  else if month = 4 || month = 6 || month = 9 || month = 11 then 30
  else 31

/-- The years that can be told apart. -/
def yearInRange (year : Int) : Bool := -262143 ≤ year && year ≤ 262142

/-- The instant at which clocks `offset` seconds ahead of UTC show the given date and time. -/
def ofLocal? (year : Int) (month day hour minute second nanosecond : Nat) (offset : Int) :
    Option Instant :=
  if yearInRange year && 1 ≤ month && month ≤ 12 && 1 ≤ day && day ≤ daysInMonth year month &&
      hour ≤ 23 && minute ≤ 59 && second ≤ 60 && -86400 < offset && offset < 86400 then
    let leap := second == 60
    let seconds := (hour * 3600 + minute * 60 + (if leap then 59 else second) : Nat)
    let total := dayOfDate year month day * 86400 + (seconds : Int) - offset
    let instant : Instant :=
      ⟨total.fdiv 86400, (total.fmod 86400).toNat, nanosecond + if leap then 1000000000 else 0⟩
    if yearInRange (dateOfDay instant.day).1 then some instant else none
  else none

def padded (width n : Nat) : String :=
  let ds := toString n
  "".pushn '0' (width - ds.length) ++ ds

/-- Four digits, and a sign for years that four digits do not hold. -/
def yearText (year : Int) : String :=
  if 0 ≤ year && year ≤ 9999 then padded 4 year.toNat
  else (if year < 0 then "-" else "+") ++ padded 4 year.natAbs

def dateText (t : Instant) : String :=
  let (year, month, day) := dateOfDay t.day
  yearText year ++ "-" ++ padded 2 month ++ "-" ++ padded 2 day

def clockText (t : Instant) : String :=
  padded 2 (t.second / 3600) ++ ":" ++ padded 2 (t.second / 60 % 60) ++ ":" ++
    padded 2 (t.second % 60 + t.nanosecond / 1000000000)

/-- The fraction in as many groups of three digits as it needs. -/
def fractionText (nanosecond : Nat) : String :=
  if nanosecond = 0 then ""
  else if nanosecond % 1000000 = 0 then "." ++ padded 3 (nanosecond / 1000000)
  else if nanosecond % 1000 = 0 then "." ++ padded 6 (nanosecond / 1000)
  else "." ++ padded 9 nanosecond

/-- The form of RFC 3339. -/
def text (t : Instant) : String :=
  dateText t ++ "T" ++ clockText t ++ fractionText (t.nanosecond % 1000000000) ++ "Z"

open Text

def digit? (c : Char) : Option Nat := if c.isDigit then some (c.toNat - '0'.toNat) else none

/-- A number of at most `width` digits after blanks. -/
def number? (width : Nat) (s : List Char) : Option (Nat × List Char) :=
  let s := trimStart s
  let ds := (s.take width).takeWhile Char.isDigit
  if ds.isEmpty then none else some (Decimal.natOfDigits ds, s.drop ds.length)

def unsignedNumber? (s : List Char) : Option (Nat × List Char) :=
  let ds := s.takeWhile Char.isDigit
  if ds.isEmpty then none else some (Decimal.natOfDigits ds, s.drop ds.length)

/-- A year of at most four digits, or of any number of digits after a sign. -/
def year? (s : List Char) : Option (Int × List Char) :=
  let s := trimStart s
  match s with
  | '-' :: rest => (unsignedNumber? rest).map fun (n, rest) => (-(n : Int), rest)
  | '+' :: rest => (unsignedNumber? rest).map fun (n, rest) => (n, rest)
  | _ => (number? 4 s).map fun (n, rest) => (n, rest)

def mark? (c : Char) (s : List Char) : Option (List Char) := dropLiteral? [c] (trimStart s)

/-- Digits after the ninth are passed over. -/
def nanosecond? : List Char → Option (Nat × List Char)
  | '.' :: s =>
    let ds := (s.take 9).takeWhile Char.isDigit
    if ds.isEmpty then none
    else some (Decimal.natOfDigits ds * Nat.pow 10 (9 - ds.length),
      (s.drop ds.length).dropWhile Char.isDigit)
  | s => some (0, s)

def twoDigits? : List Char → Option (Nat × List Char)
  | a :: b :: rest => do return ((← digit? a) * 10 + (← digit? b), rest)
  | _ => none

/-- Seconds ahead of UTC: `Z`, `UTC` or hours and minutes after a sign. -/
def offset? (s : List Char) : Option (Int × List Char) :=
  match s with
  | 'Z' :: rest | 'z' :: rest => some (0, rest)
  | _ =>
    if (s.take 3).map Char.toLower = ['u', 't', 'c'] then some (0, s.drop 3)
    else do
      let (sign, s) ← match s with
        | '+' :: s => some ((1 : Int), s)
        | '-' :: s | '−' :: s => some (-1, s)
        | _ => none
      let (hours, s) ← twoDigits? s
      let (minutes, s) ← twoDigits? (s.dropWhile fun c => c = ':' || isBlankChar c)
      if minutes ≤ 59 then return (sign * (hours * 3600 + minutes * 60 : Nat), s) else none

/-- The form of RFC 3339, read with some freedom: blanks may stand before each part, and a space for
the `T`. -/
def ofText? (s : String) : Option Instant := do
  let (year, s) ← year? s.toList
  let (month, s) ← (mark? '-' s).bind (number? 2)
  let (day, s) ← (mark? '-' s).bind (number? 2)
  let s ← match s with
    | 'T' :: s | 't' :: s | ' ' :: s => some s
    | _ => none
  let (hour, s) ← number? 2 s
  let (minute, s) ← (mark? ':' s).bind (number? 2)
  let (second, s) ← (mark? ':' s).bind (number? 2)
  let (nanosecond, s) ← nanosecond? s
  let (offset, s) ← offset? (trimStart s)
  if (trimStart s).isEmpty then ofLocal? year month day hour minute second nanosecond offset
  else none

end Instant

end Inventory
