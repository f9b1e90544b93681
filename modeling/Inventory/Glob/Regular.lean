/-! Regular expressions over bytes, matched by partial derivatives: the expressions that may be left
after each byte form a finite set, and a text matches if one of those left at its end
is nullable. -/
namespace Inventory.Glob

/-- Ranges of bytes, or all bytes outside of them. With `anyCase` a letter counts as in a range if
its other case is. -/
structure ByteSet where
  ranges : List (Nat × Nat)
  negated : Bool
  anyCase : Bool
  deriving DecidableEq, Repr

namespace ByteSet

def otherCase (n : Nat) : Nat :=
  if 65 ≤ n && n ≤ 90 then n + 32 else if 97 ≤ n && n ≤ 122 then n - 32 else n

def covers (s : ByteSet) (n : Nat) : Bool := s.ranges.any fun r => r.1 ≤ n && n ≤ r.2

def mem (s : ByteSet) (b : UInt8) : Bool :=
  (s.covers b.toNat || (s.anyCase && s.covers (otherCase b.toNat))) != s.negated

def any : ByteSet := ⟨[(0, 255)], false, false⟩
def slash : ByteSet := ⟨[(47, 47)], false, false⟩
def notSlash : ByteSet := ⟨[(47, 47)], true, false⟩

end ByteSet

inductive Regular where
  | empty
  | one (set : ByteSet)
  | seq (first second : Regular)
  | alt (left right : Regular)
  | star (body : Regular)
  /-- Nothing matches, not even the empty text. -/
  | never
  deriving DecidableEq, Repr

namespace Regular

def nullable : Regular → Bool
  | empty => true
  | one _ => false
  | seq a b => a.nullable && b.nullable
  | alt a b => a.nullable || b.nullable
  | star _ => true
  | never => false

/-- `first` and then `second`, where an empty `first` is not written. -/
def thenSeq (first second : Regular) : Regular :=
  match first with
  | empty => second
  | first => seq first second

/-- What may be left to match after a byte. -/
def partials (b : UInt8) : Regular → List Regular
  | empty => []
  | one set => if set.mem b then [empty] else []
  | seq r s => (partials b r).map (thenSeq · s) ++ if r.nullable then partials b s else []
  | alt r s => partials b r ++ partials b s
  | star r => (partials b r).map (thenSeq · (star r))
  | never => []

def step (states : List Regular) (b : UInt8) : List Regular :=
  (states.flatMap (partials b)).eraseDups

def «matches» (r : Regular) (bytes : List UInt8) : Bool := (bytes.foldl step [r]).any nullable

def ofList : List Regular → Regular
  | [] => empty
  | [r] => r
  | r :: rest => seq r (ofList rest)

def anyOf : List Regular → Regular
  | [] => never
  | [r] => r
  | r :: rest => alt r (anyOf rest)

end Regular

end Inventory.Glob
