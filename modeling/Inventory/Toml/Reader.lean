import Inventory.Toml.Numeral

/-! Reading a TOML document. The lines of the document change a growing `Node` in turn; the tables
between braces are grown in the same way. -/
namespace Inventory.Toml

/-- A key with its value: the parts of the key before the last, the last, and the value. -/
structure Assignment where
  path : List String
  key : String
  value : Toml

def assignAll (node : Node) (assignments : List Assignment) : Option Node :=
  assignments.foldlM (fun node a => node.assign a.path a.key a.value) node

mutual

/-- One value. `depth` counts the brackets and braces around it. -/
def value? : (fuel depth : Nat) → Rest → Option (Toml × Rest)
  | 0, _, _ => none
  | fuel + 1, depth, s =>
    match s with
    | '"' :: _ | '\'' :: _ => (quoted? s).map fun (text, s) => (.string text, s)
    | '[' :: s =>
      if depth + 1 < nestingLimit then
        (items? fuel (depth + 1) s).map fun (items, s) => (.array items, s)
      else none
    | '\x7b' :: s => if depth + 1 < nestingLimit then inline? fuel (depth + 1) s else none
    | 't' :: 'r' :: 'u' :: 'e' :: s => some (.boolean true, s)
    | 'f' :: 'a' :: 'l' :: 's' :: 'e' :: s => some (.boolean false, s)
    | s => numeral? s

/-- The items of an array and its closing bracket; a comma may stand after the last item. -/
def items? (fuel depth : Nat) (s : Rest) : Option (List Toml × Rest) :=
  match fuel with
  | 0 => none
  | fuel + 1 =>
    match skipLines s.length s with
    | ']' :: s => some ([], s)
    | s => do
      let (item, s) ← value? fuel depth s
      match skipLines s.length s with
      | ']' :: s => return ([item], s)
      | ',' :: s =>
        let (items, s) ← items? fuel depth s
        return (item :: items, s)
      | _ => none

/-- The rest of a table between braces, which stands on one line. -/
def inline? (fuel depth : Nat) (s : Rest) : Option (Toml × Rest) :=
  match fuel with
  | 0 => none
  | fuel + 1 =>
    match skipSpace s with
    | '\x7d' :: s => some (.table [], s)
    | s => do
      let (assignments, s) ← assignments? fuel depth s
      let node ← assignAll .root assignments
      return (node.finish, s)

/-- One assignment or more between commas, and the closing brace. -/
def assignments? (fuel depth : Nat) (s : Rest) : Option (List Assignment × Rest) :=
  match fuel with
  | 0 => none
  | fuel + 1 => do
    let ((path, key), s) ← key? s
    match s with
    | '=' :: s =>
      let (value, s) ← value? fuel depth (skipSpace s)
      match skipSpace s with
      | '\x7d' :: s => return ([⟨path, key, value⟩], s)
      | ',' :: s =>
        let (assignments, s) ← assignments? fuel depth s
        return (⟨path, key, value⟩ :: assignments, s)
      | _ => none
    | _ => none

end

/-- A line that says something. -/
inductive Line where
  | assignment (a : Assignment)
  /-- The header of a table. -/
  | table (path : List String) (key : String)
  /-- The header of one more table of an array. -/
  | item (path : List String) (key : String)

def line? : Rest → Option (Line × Rest)
  | '[' :: '[' :: s => do
    let ((path, key), s) ← key? s
    match s with
    | ']' :: ']' :: s => return (.item path key, ← lineEnd? s)
    | _ => none
  | '[' :: s => do
    let ((path, key), s) ← key? s
    match s with
    | ']' :: s => return (.table path key, ← lineEnd? s)
    | _ => none
  | s => do
    let ((path, key), s) ← key? s
    match s with
    | '=' :: s =>
      let s := skipSpace s
      let (value, s) ← value? (2 * s.length + 2) 0 s
      return (.assignment ⟨path, key, value⟩, ← lineEnd? s)
    | _ => none

def lines? : (fuel : Nat) → Rest → Option (List Line)
  | 0, _ => none
  | fuel + 1, s =>
    match skipSpace s with
    | [] => some []
    | '#' :: s => (lineEnd? ('#' :: s)).bind (lines? fuel)
    | s =>
      match newline? s with
      | some s => lines? fuel s
      | none => do
        let (line, s) ← line? s
        return line :: (← lines? fuel s)

/-- What a line does to the document. `current` is the path of the table that is open. -/
def Line.apply (current : List String) (node : Node) : Line → Option (List String × Node)
  | assignment a => do
    return (current, ← node.update .passing (·.assign a.path a.key a.value) current)
  | table path key => do return (path ++ [key], ← node.update .passing (·.openTable key) path)
  | item path key => do return (path ++ [key], ← node.update .passing (·.openItem key) path)

def document? (lines : List Line) : Option Toml := do
  let (_, node) ← lines.foldlM (fun (current, node) line => line.apply current node) ([], .root)
  return node.finish

/-- A byte order mark in front of the text is passed over. -/
def dropMark (s : Rest) : Rest := (Text.dropLiteral? ['\uFEFF'] s).getD s

/-- The table that a text describes. -/
def read? (s : String) : Option Toml := do
  let s := dropMark s.toList
  document? (← lines? (s.length + 1) s)

end Inventory.Toml
