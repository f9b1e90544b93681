import Inventory.Text.CaseTable

/-! Lower case of a whole text. One letter has a lower case of two characters (the dotted capital
I), and a capital sigma depends on its neighbours: at the end of a word it becomes the
final form. -/
namespace Inventory.Text

/-- The simple mapping; a character without one stands for itself. -/
def lowerChar (c : Char) : Char :=
  if c.toNat < 0x80 then c.toLower
  else
    let n := c.toNat
    match lowerRanges.find? fun r => r.first ≤ n && n ≤ r.last && (n - r.first) % r.step == 0 with
    | some r => Char.ofNat ((n : Int) + r.offset).toNat
    | none => c

def isCased (c : Char) : Bool := inRanges casedRanges c
def isCaseIgnorable (c : Char) : Bool := inRanges caseIgnorableRanges c

/-- The first character that is not to be ignored has case. -/
def meetsCased (s : List Char) : Bool :=
  match s.dropWhile isCaseIgnorable with
  | [] => false
  | c :: _ => isCased c

/-- Lower case of one character between `before` (nearest first) and `after`. -/
def lowerInContext (before : List Char) (c : Char) (after : List Char) : List Char :=
  if c = 'Σ' then
    if meetsCased before && !meetsCased after then ['ς'] else ['σ']
  else if c = 'İ' then ['i', '\u0307']
  else [lowerChar c]

def lowerAfter (before : List Char) : List Char → List Char
  | [] => []
  | c :: rest => lowerInContext before c rest ++ lowerAfter (c :: before) rest

def lowercase (s : String) : String := String.ofList (lowerAfter [] s.toList)

/-- Lower case of the letters `A` to `Z` alone. -/
def foldAscii (s : String) : List Char := s.toList.map Char.toLower

/-- Equality that ignores the case of the letters `A` to `Z` alone. -/
def eqIgnoringCase (a b : String) : Bool := foldAscii a == foldAscii b

end Inventory.Text
