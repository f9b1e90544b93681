import Inventory.Text.Split

/-! Paths as texts with `/` between their parts. Repeated slashes and inner dots name nothing, but
the text of a path keeps them. A name need not be UTF-8: a byte of it that belongs to no character
stands as a NUL, which no name has, and the character of the byte's number. -/
namespace Inventory.Path

open Text

def pieces (path : String) : List String := (splitAt '/' path.toList).map String.ofList

def isAbsolute (path : String) : Bool := path.toList.head? = some '/'

/-- The parts that mean something: the root, a dot in front, and names. -/
def components (path : String) : List String :=
  let parts := pieces path
  let names := fun (l : List String) => l.filter fun p => p != "" && p != "."
  match parts with
  | "." :: rest => "." :: names rest
  | "" :: rest => if isAbsolute path then "/" :: names rest else names rest
  | parts => names parts

/-- An absolute name replaces the path, any other goes below it. -/
def join (path name : String) : String :=
  if isAbsolute name then name
  else if path.isEmpty || path.toList.getLast? = some '/' then path ++ name
  else path ++ "/" ++ name

/-- Drops slashes and dots from the end of a list of pieces in reverse, but not a path's first
piece. -/
def dropEmptyEnd : List String → List String
  | [] => []
  | [first] => [first]
  | last :: rest => if last = "" || last = "." then dropEmptyEnd rest else last :: rest

/-- The text before the last name; nothing for the root and for the empty path. -/
def parent? (path : String) : Option String :=
  match dropEmptyEnd (pieces path).reverse with
  | [] => none
  | [last] => if last = "" then none else some ""
  | _ :: rest =>
    match dropEmptyEnd rest with
    | [""] => some "/"
    | rest => some ("/".intercalate rest.reverse)

/-- The last name, or the whole path if it has none. -/
def fileName (path : String) : String :=
  match (dropEmptyEnd (pieces path).reverse).head? with
  | some name => if name = "" || name = "." || name = ".." then path else name
  | none => path

/-- The path of `name` in the folder that holds `path`. -/
def sibling? (path name : String) : Option String := (parent? path).map (join · name)

/-- The components of `path` below `root`, or all of them if it does not lie there. -/
def componentsBelow (root path : String) : List String :=
  let all := components path
  let top := components root
  if top.isPrefixOf all then all.drop top.length else all

/-- The two characters that stand for a byte. -/
def isStray (mark byte : Char) : Bool := mark = '\x00' && 0x80 ≤ byte.toNat

def bytes : List Char → List Nat
  | [] => []
  | [c] => (String.utf8EncodeChar c).map UInt8.toNat
  | c :: d :: rest =>
    if isStray c d then d.toNat :: bytes rest
    else (String.utf8EncodeChar c).map UInt8.toNat ++ bytes (d :: rest)

/-- Paths are ordered by the bytes of their components. No two names have the same bytes, so their
letters do not matter. -/
def order (path : String) : List (List (List Nat)) :=
  (components path).map fun name => [bytes name.toList, name.toList.map Char.toNat]

/-- The ranges of the bytes that can stand in a character between the first and the last. -/
def middleBytes (first : Nat) : List (Nat × Nat) :=
  if first = 0xE0 then [(0xA0, 0xBF)]
  else if first = 0xED then [(0x80, 0x9F)]
  else if 0xE1 ≤ first && first ≤ 0xEF then [(0x80, 0xBF)]
  else if first = 0xF0 then [(0x90, 0xBF), (0x80, 0xBF)]
  else if first = 0xF4 then [(0x80, 0x8F), (0x80, 0xBF)]
  else if 0xF1 ≤ first && first ≤ 0xF3 then [(0x80, 0xBF), (0x80, 0xBF)]
  else []

/-- Stray bytes are shown as U+FFFD, those that begin one character as one. `awaited` says which
bytes go on with it. -/
def shownFrom (awaited : List (Nat × Nat)) : List Char → List Char
  | [] => []
  | [c] => [c]
  | c :: d :: rest =>
    if isStray c d then
      if awaited.head?.any fun r => r.1 ≤ d.toNat && d.toNat ≤ r.2 then
        shownFrom awaited.tail rest
      else '\uFFFD' :: shownFrom (middleBytes d.toNat) rest
    else c :: shownFrom [] (d :: rest)

/-- A path as it is shown. -/
def shown (path : String) : String := String.ofList (shownFrom [] path.toList)

end Inventory.Path
