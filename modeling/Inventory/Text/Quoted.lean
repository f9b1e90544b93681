import Inventory.Text.Blank

/-! A blank text between quotes, so that a reader can see which blanks it holds. -/
namespace Inventory.Text

def hexDigits (n : Nat) : String := String.ofList (Nat.toDigits 16 n)

/-- The plain space stands for itself, three blanks have short names, and the others are written by
number. -/
def quoteBlankChar (c : Char) : String :=
  if c = ' ' then " "
  else if c = '\t' then "\\t"
  else if c = '\n' then "\\n"
  else if c = '\r' then "\\r"
  else "\\u\x7b" ++ hexDigits c.toNat ++ "\x7d"

def quoteBlank (s : String) : String := "\"" ++ String.join (s.toList.map quoteBlankChar) ++ "\""

end Inventory.Text
