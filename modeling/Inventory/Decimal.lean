/-! Decimal numerals in parts, and which of them lie within the range of doubles. -/
namespace Inventory

structure Decimal where
  negative : Bool
  whole : List Char
  fraction : List Char
  /-- Its sign, true for a negative one, and its digits. -/
  exponent : Option (Bool × List Char)

namespace Decimal

def natOfDigits (ds : List Char) : Nat := ds.foldl (fun n d => n * 10 + (d.toNat - '0'.toNat)) 0

/-- The least number that rounds to infinity as a double. -/
def doubleLimit : Nat := Nat.pow 2 1024 - Nat.pow 2 970

/-- The size of the number is below `doubleLimit`. Exponents of more than a few digits are settled
by their sign, so that no huge power is computed. -/
def inRange (d : Decimal) : Bool :=
  let significand := natOfDigits (d.whole ++ d.fraction)
  significand == 0 ||
  match d.exponent with
  | none => natOfDigits d.whole < doubleLimit
  | some (true, ds) =>
    let places := d.fraction.length + min (natOfDigits ds) 99999
    significand < doubleLimit * Nat.pow 10 places
  | some (false, ds) =>
    natOfDigits ds ≤ 400 + d.fraction.length &&
    significand * Nat.pow 10 (natOfDigits ds) < doubleLimit * Nat.pow 10 d.fraction.length

def isZero (d : Decimal) : Bool := natOfDigits (d.whole ++ d.fraction) == 0

def text (d : Decimal) : String :=
  String.ofList <|
    (if d.negative then ['-'] else []) ++ d.whole ++
    (if d.fraction.isEmpty then [] else '.' :: d.fraction) ++
    match d.exponent with
    | none => []
    | some (negative, ds) => 'e' :: (if negative then '-' :: ds else ds)

end Decimal

end Inventory
