import Inventory.Text.Blank
import Inventory.Text.WidthTable

/-! How many columns a line takes. Control characters take one. A joiner glues two wide characters
into one picture, and a skin tone belongs to the picture before it. -/
namespace Inventory.Text

def charWidth (c : Char) : Nat :=
  if c.toNat < 0x300 then (if c.toNat = 0xAD then 0 else 1)
  else if inRanges zeroWidthRanges c then 0
  else if inRanges wideRanges c then 2
  else 1

def isSkinTone (c : Char) : Bool := inRanges [(0x1F3FB, 0x1F3FF)] c

/-- The columns of what follows a character of width `last`. -/
def widthAfter (last : Nat) : List Char → Nat
  | [] => 0
  | '\u200D' :: c :: rest =>
    if last = 2 && charWidth c = 2 then widthAfter 2 rest
    else charWidth c + widthAfter (charWidth c) rest
  | c :: rest =>
    if isSkinTone c && last = 2 then widthAfter 2 rest
    else if charWidth c = 0 then widthAfter last rest
    else charWidth c + widthAfter (charWidth c) rest

def displayWidth (s : List Char) : Nat := widthAfter 0 s

end Inventory.Text
