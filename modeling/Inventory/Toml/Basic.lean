/-! TOML values, and the document as it grows while it is read. TOML says which tables may be added
to by whom, so a table of a growing document remembers how it came to be. -/
namespace Inventory

inductive Toml where
  | string (value : String)
  | integer (value : Int)
  | float
  | boolean (value : Bool)
  | datetime (text : String)
  | array (items : List Toml)
  | table (entries : List (String × Toml))
  deriving Repr, Inhabited

namespace Toml

/-- How a table came to be. -/
inductive Origin where
  /-- By a header of its own, or between braces. -/
  | header
  /-- On the way to a table that a header names. -/
  | passing
  /-- By a dotted key. -/
  | dotted
  deriving DecidableEq, Repr

/-- A part of a growing document. An array of tables grows at its end, which is what keys written
after its header belong to. -/
inductive Node where
  | value (v : Toml)
  | table (origin : Origin) (entries : List (String × Node))
  /-- The earlier tables are held latest first. -/
  | tables (earlier : List Node) (last : Node)
  deriving Inhabited

namespace Node

def root : Node := table .header []

def find? (key : String) (entries : List (String × Node)) : Option Node :=
  (entries.find? (·.1 == key)).map (·.2)

def put (key : String) (node : Node) : List (String × Node) → List (String × Node)
  | [] => [(key, node)]
  | (k, n) :: rest => if k = key then (k, node) :: rest else (k, n) :: put key node rest

/-- Changes the table at the end of a path by `f`. Tables that are missing on the way are made with
the origin `fresh`, and of the tables that are there dotted keys may not pass one with a header. -/
def update (fresh : Origin) (f : Node → Option Node) : (path : List String) → Node → Option Node
  | [], node => f node
  | key :: path, table origin entries =>
    match find? key entries with
    | none => (update fresh f path (table fresh [])).map fun n => table origin (put key n entries)
    | some (value _) => none
    | some (tables earlier last) =>
      (update fresh f path last).map fun n => table origin (put key (tables earlier n) entries)
    | some (table o es) =>
      if fresh = .dotted && o = .header then none
      else (update fresh f path (table o es)).map fun n => table origin (put key n entries)
  | _, _ => none

/-- Adds a new key to a table. Keys without dots go to any table but one that dotted keys made, keys
with dots to no other. -/
def addKey (dotted : Bool) (key : String) (v : Toml) : Node → Option Node
  | table origin entries =>
    if (origin == .dotted) != dotted || (find? key entries).isSome then none
    else some (table origin (entries ++ [(key, value v)]))
  | _ => none

/-- The value of a key with dots, given by the parts before the last and the last. -/
def assign (path : List String) (key : String) (v : Toml) (node : Node) : Option Node :=
  node.update .dotted (addKey (!path.isEmpty) key v) path

/-- Opens the table that a header names. One that is there already may have come up only on the way
to another. -/
def openTable (key : String) : Node → Option Node
  | table origin entries =>
    match find? key entries with
    | none => some (table origin (entries ++ [(key, table .header [])]))
    | some (table .passing inner) => some (table origin (put key (table .header inner) entries))
    | some _ => none
  | _ => none

/-- Opens one more table of an array of tables. -/
def openItem (key : String) : Node → Option Node
  | table origin entries =>
    match find? key entries with
    | none => some (table origin (entries ++ [(key, tables [] (table .header []))]))
    | some (tables earlier last) =>
      some (table origin (put key (tables (last :: earlier) (table .header [])) entries))
    | some _ => none
  | _ => none

mutual

/-- The value that the finished part is. -/
def finish : Node → Toml
  | value v => v
  | table _ entries => .table (finishEntries entries)
  | tables earlier last => .array ((finishAll earlier).reverse ++ [last.finish])

def finishEntries : List (String × Node) → List (String × Toml)
  | [] => []
  | (key, node) :: rest => (key, node.finish) :: finishEntries rest

def finishAll : List Node → List Toml
  | [] => []
  | node :: rest => node.finish :: finishAll rest

end

end Node

end Toml

end Inventory
