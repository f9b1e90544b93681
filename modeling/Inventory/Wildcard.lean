import Inventory.Text.Split

/-! Patterns in which a star stands for any text and every other character for itself. -/
namespace Inventory.Wildcard

open Text

/-- The parts occur in `s` in this order, each after the end of the one before it. -/
def inOrder : (parts : List (List Char)) → (s : List Char) → Bool
  | [], _ => true
  | part :: parts, s =>
    match cutAt? part s with
    | some (_, after) => inOrder parts after
    | none => false

/-- The first part starts the text, the last part ends what is left, and the parts between follow
one another in the rest. -/
def matchParts (parts : List (List Char)) (s : List Char) : Bool :=
  match parts with
  | [] => s.isEmpty
  | [whole] => s == whole
  | first :: rest =>
    match (dropLiteral? first s).bind (dropLiteralEnd? (rest.getLast?.getD [])) with
    | some inner => inOrder rest.dropLast inner
    | none => false

def «matches» (pattern text : String) : Bool :=
  matchParts (splitAt '*' pattern.toList) text.toList

def matchesAny (patterns : List String) (text : String) : Bool :=
  patterns.any (Wildcard.matches · text)

end Inventory.Wildcard
