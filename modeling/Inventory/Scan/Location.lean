import Inventory.Text.Split

/-! Locations as a result gives them: relative to the folder that was scanned, with a slash in
front. -/
namespace Inventory

open Text

def dropSlashesEnd (path : List Char) : List Char := (path.reverse.dropWhile (· == '/')).reverse

def withSlash : List Char → List Char
  | '/' :: rest => '/' :: rest
  | rest => '/' :: rest

/-- The rest of `location` below `root`. Only a whole component of a path is taken off. -/
def below? (root location : List Char) : Option (List Char) :=
  match dropLiteral? root location with
  | some [] => some []
  | some ('/' :: rest) => some ('/' :: rest)
  | _ => none

/-- What lies outside of the root keeps its path. Backslashes count as slashes. -/
def relativeLocation (root location : String) : String :=
  let location := (replaceChar '\\' '/' location).toList
  let root := dropSlashesEnd (replaceChar '\\' '/' root).toList
  String.ofList <|
    if root.isEmpty then withSlash location
    else match below? root location with
      | some rest => withSlash rest
      | none => location

end Inventory
