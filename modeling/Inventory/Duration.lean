/-! Lengths of time. In texts they are seconds to two places, and the seconds are those of the
nearest double: the whole seconds and the part of a second are doubles, and so is their sum. -/
namespace Inventory

/-- The quotient rounded to the nearest integer, a half to the even one. -/
def roundedQuotient (num den : Nat) : Nat :=
  let q := num / den
  let twice := 2 * (num % den)
  if twice < den then q else if den < twice then q + 1 else q + q % 2

/-- The number `num / 2 ^ shift`. -/
structure BinaryFraction where
  num : Nat
  shift : Nat
  deriving DecidableEq, Repr

namespace BinaryFraction

/-- The number with `places` binary zeros after it. -/
def scaled (n places : Nat) : Nat := n * Nat.pow 2 places

/-- The nearest of the numbers of 53 binary digits, of two the one whose last digit is zero. -/
def nearest (num den : Nat) : BinaryFraction :=
  if num = 0 then ⟨0, 0⟩
  else
    let guess : Int := (num.log2 : Int) - den.log2
    let below := scaled num (-guess).toNat < scaled den guess.toNat
    let places := 52 - (if below then guess - 1 else guess)
    if 0 ≤ places then ⟨roundedQuotient (scaled num places.toNat) den, places.toNat⟩
    else
      let excess := (-places).toNat
      ⟨scaled (roundedQuotient num (scaled den excess)) excess, 0⟩

def add (a b : BinaryFraction) : BinaryFraction :=
  nearest (scaled a.num b.shift + scaled b.num a.shift) (Nat.pow 2 (a.shift + b.shift))

/-- The number in hundredths. -/
def hundredths (a : BinaryFraction) : Nat := roundedQuotient (a.num * 100) (Nat.pow 2 a.shift)

end BinaryFraction

structure Duration where
  nanoseconds : Nat
  deriving DecidableEq, Repr

namespace Duration

def seconds (d : Duration) : BinaryFraction :=
  .add (.nearest (d.nanoseconds / 1000000000) 1) (.nearest (d.nanoseconds % 1000000000) 1000000000)

def text (d : Duration) : String :=
  let n := d.seconds.hundredths
  toString (n / 100) ++ "." ++ (if n % 100 < 10 then "0" else "") ++ toString (n % 100) ++
    " seconds"

end Duration

end Inventory
