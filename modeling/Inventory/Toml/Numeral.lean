import Inventory.Decimal
import Inventory.Instant
import Inventory.Toml.Lexeme
import Inventory.Word

/-! Integers, floating-point numbers, dates and times in a TOML text. -/
namespace Inventory.Toml

/-- Digits that satisfy `isDigit`, with single underscores between them. -/
def digitRun? (isDigit : Char → Bool) : Rest → Option (List Char × Rest)
  | [] => none
  | c :: s =>
    if !isDigit c then none
    else match s with
      | '_' :: s => (digitRun? isDigit s).map fun (ds, s) => (c :: ds, s)
      | d :: s =>
        if isDigit d then (digitRun? isDigit (d :: s)).map fun (ds, s) => (c :: ds, s)
        else some ([c], d :: s)
      | [] => some ([c], [])

def sign : Rest → Bool × Rest
  | '-' :: s => (true, s)
  | '+' :: s => (false, s)
  | s => (false, s)

/-- A sign and digits. A zero in front is the whole number. -/
def signedRun? (s : Rest) : Option (Bool × List Char × Rest) :=
  match sign s with
  | (negative, '0' :: s) => some (negative, ['0'], s)
  | (negative, s) => (digitRun? Char.isDigit s).map fun (ds, s) => (negative, ds, s)

def natOfRun (base : Nat) (ds : List Char) : Nat :=
  ds.foldl (fun n d => n * base + (hexValue? d).getD 0) 0

/-- Integers are those of 64 bits with a sign. -/
def integerInRange (i : Int) : Bool := -(Word.signedLimit64 : Int) ≤ i && i < Word.signedLimit64

def ranged? (i : Int) (s : Rest) : Option (Toml × Rest) :=
  if integerInRange i then some (.integer i, s) else none

def isHexDigit (c : Char) : Bool := (hexValue? c).isSome
def isOctalDigit (c : Char) : Bool := '0' ≤ c && c ≤ '7'
def isBinaryDigit (c : Char) : Bool := c = '0' || c = '1'

def integer? : Rest → Option (Toml × Rest)
  | '0' :: 'x' :: s => (digitRun? isHexDigit s).bind fun (ds, s) => ranged? (natOfRun 16 ds) s
  | '0' :: 'o' :: s => (digitRun? isOctalDigit s).bind fun (ds, s) => ranged? (natOfRun 8 ds) s
  | '0' :: 'b' :: s => (digitRun? isBinaryDigit s).bind fun (ds, s) => ranged? (natOfRun 2 ds) s
  | s => (signedRun? s).bind fun (negative, ds, s) =>
    let n := natOfRun 10 ds
    ranged? (if negative then -(n : Int) else n) s

def exponent? : Rest → Option (Option (Bool × List Char) × Rest)
  | e :: s =>
    if e = 'e' || e = 'E' then
      let (negative, s) := sign s
      (digitRun? Char.isDigit s).map fun (ds, s) => (some (negative, ds), s)
    else some (none, e :: s)
  | [] => some (none, [])

/-- A number with a fraction, an exponent or both. It may not round to the positive infinity. -/
def float? (s : Rest) : Option (Toml × Rest) := do
  let (negative, whole, s) ← signedRun? s
  let (fraction, s) ← match s with
    | '.' :: s => digitRun? Char.isDigit s
    | s => some ([], s)
  let (exponent, s) ← exponent? s
  if fraction.isEmpty && exponent.isNone then none
  else if negative || (Decimal.mk negative whole fraction exponent).inRange then return (.float, s)
  else none

/-- The infinities and what is no number, with or without a sign. -/
def specialFloat? (s : Rest) : Option (Toml × Rest) :=
  match (sign s).2 with
  | 'i' :: 'n' :: 'f' :: s => some (.float, s)
  | 'n' :: 'a' :: 'n' :: s => some (.float, s)
  | _ => none

def fixedDigits? (width : Nat) (s : Rest) : Option (Nat × Rest) :=
  let ds := s.take width
  if ds.length = width && ds.all Char.isDigit then some (Decimal.natOfDigits ds, s.drop width)
  else none

def atMost? (limit : Nat) (width : Nat) (s : Rest) : Option (Nat × Rest) := do
  let (n, s) ← fixedDigits? width s
  if n ≤ limit then return (n, s) else none

open Text (dropLiteral?)
open Instant (padded)

/-- A date, as its text. -/
def date? (s : Rest) : Option (String × Rest) := do
  let (year, s) ← fixedDigits? 4 s
  let s ← dropLiteral? ['-'] s
  let (month, s) ← fixedDigits? 2 s
  let s ← dropLiteral? ['-'] s
  let (day, s) ← fixedDigits? 2 s
  if 1 ≤ month && month ≤ 12 && 1 ≤ day && day ≤ Instant.daysInMonth year month then
    return (padded 4 year ++ "-" ++ padded 2 month ++ "-" ++ padded 2 day, s)
  else none

/-- The fraction of a second as its text: nine digits, and zeros at the end left out. -/
def fractionText (ds : List Char) : String :=
  let kept := ((ds.take 9).reverse.dropWhile (· == '0')).reverse
  if kept.isEmpty then "" else "." ++ String.ofList kept

/-- A time of the day, as its text. Seconds go to 60. -/
def time? (s : Rest) : Option (String × Rest) := do
  let (hour, s) ← atMost? 23 2 s
  let s ← dropLiteral? [':'] s
  let (minute, s) ← atMost? 59 2 s
  let s ← dropLiteral? [':'] s
  let (second, s) ← atMost? 60 2 s
  let clock := padded 2 hour ++ ":" ++ padded 2 minute ++ ":" ++ padded 2 second
  match s with
  | '.' :: s =>
    let ds := s.takeWhile Char.isDigit
    if ds.isEmpty then none else return (clock ++ fractionText ds, s.drop ds.length)
  | s => return (clock, s)

/-- The distance from UTC, as its text; none is the empty text. -/
def offset? : Rest → Option (String × Rest)
  | 'Z' :: s => some ("Z", s)
  | 'z' :: s => some ("Z", s)
  | c :: s =>
    if c = '+' || c = '-' then do
      let (hours, s) ← atMost? 23 2 s
      let s ← dropLiteral? [':'] s
      let (minutes, s) ← atMost? 59 2 s
      let mark := if c = '-' && hours + minutes != 0 then "-" else "+"
      return (mark ++ padded 2 hours ++ ":" ++ padded 2 minutes, s)
    else some ("", c :: s)
  | [] => some ("", [])

def isDateTimeMark (c : Char) : Bool := c = 'T' || c = 't' || c = ' '

/-- A date, a time, or a date with a time. -/
def datetime? (s : Rest) : Option (Toml × Rest) :=
  match date? s with
  | none => (time? s).map fun (time, s) => (.datetime time, s)
  | some (date, s) =>
    match s with
    | c :: more =>
      match if isDateTimeMark c then time? more else none with
      | some (time, s) => (offset? s).map fun (offset, s) =>
        (.datetime (date ++ "T" ++ time ++ offset), s)
      | none => some (.datetime date, c :: more)
    | [] => some (.datetime date, [])

/-- A value that starts with a digit or a sign. -/
def numeral? (s : Rest) : Option (Toml × Rest) :=
  (datetime? s).or <| (float? s).or <| (specialFloat? s).or <| integer? s

end Inventory.Toml
