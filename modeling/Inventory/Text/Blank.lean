/-! White space as Unicode's property `White_Space` has it, and the two readings of a text that
depend on it. Core's `Char.isWhitespace` knows four of these characters. -/
namespace Inventory.Text

/-- The ranges of the property `White_Space`. -/
def blankRanges : List (Nat × Nat) :=
  [(0x9, 0xD), (0x20, 0x20), (0x85, 0x85), (0xA0, 0xA0), (0x1680, 0x1680), (0x2000, 0x200A),
   (0x2028, 0x2029), (0x202F, 0x202F), (0x205F, 0x205F), (0x3000, 0x3000)]

def inRanges (ranges : List (Nat × Nat)) (c : Char) : Bool :=
  ranges.any fun r => r.1 ≤ c.toNat && c.toNat ≤ r.2

def isBlankChar (c : Char) : Bool := inRanges blankRanges c

def trimStart (s : List Char) : List Char := s.dropWhile isBlankChar
def trimEnd (s : List Char) : List Char := (s.reverse.dropWhile isBlankChar).reverse
def trim (s : List Char) : List Char := trimEnd (trimStart s)

/-- Nothing is left of a blank text once it is trimmed. -/
def isBlank (s : String) : Bool := s.toList.all isBlankChar

def trimmed (s : String) : String := String.ofList (trim s.toList)

end Inventory.Text
