import Inventory.Path
import Inventory.SortedMap

/-! Files in folders, with symbolic links, as the tree below a working folder. Names are written as
in paths, with a mark in front of each stray byte. A file's content is its text; all that can be
said of another file is that it is no text. -/
namespace Inventory

inductive FileTree where
  | file (text : Option String)
  | link (target : String)
  | folder (entries : List (String × FileTree))
  deriving Inhabited

inductive FileError where
  | notFound
  | alreadyExists
  | notFolder
  | isFolder
  | tooManyLinks
  | notText
  deriving DecidableEq, Repr

namespace FileError

def message : FileError → String
  | notFound => "No such file or directory (os error 2)"
  | alreadyExists => "File exists (os error 17)"
  | notFolder => "Not a directory (os error 20)"
  | isFolder => "Is a directory (os error 21)"
  | tooManyLinks => "Too many levels of symbolic links (os error 40)"
  | notText => "stream did not contain valid UTF-8"

end FileError

namespace FileTree

/-- Where a node stands: the names on the way down to it, none of them a link. -/
abbrev Place := List String

def isFolder : FileTree → Bool
  | folder _ => true
  | _ => false

def child? (name : String) : FileTree → Option FileTree
  | folder entries => (entries.find? (·.1 == name)).map (·.2)
  | _ => none

def at? (tree : FileTree) : Place → Option FileTree
  | [] => some tree
  | name :: rest => (tree.child? name).bind (·.at? rest)

/-- Puts `node` at a place, making the folders on the way. -/
def put (tree : FileTree) (place : Place) (node : FileTree) : FileTree :=
  match place with
  | [] => node
  | name :: rest =>
    match tree with
    | folder entries =>
      folder (SortedMap.upsertEntry name (fun old => put (old.getD (folder [])) rest node) entries)
    | _ => folder [(name, put (folder []) rest node)]

/-- The whole tree, and the place of the working folder in it. -/
structure World where
  top : FileTree
  here : Place
  deriving Inhabited

namespace World

/-- The place where a path starts, and its pieces. The empty path names nothing. -/
def start? (base : Place) (path : String) : Option (Place × List String) :=
  if path.isEmpty then none
  else some (if Path.isAbsolute path then [] else base, Path.pieces path)

/-- Follows `pieces` down from `place`; `links` bounds the links that are followed. With `create`
the last piece may be missing. -/
def follow (world : World) (create : Bool) (links : Nat) (place : Place) (pieces : List String) :
    Except FileError Place :=
  match pieces with
  | [] => .ok place
  | name :: rest =>
    match world.top.at? place with
    | some (.folder entries) =>
      if name = "" || name = "." then world.follow create links place rest
      else if name = ".." then world.follow create links place.dropLast rest
      else match entries.find? (·.1 == name) with
        | none => if create && rest.isEmpty then .ok (place ++ [name]) else .error .notFound
        | some (_, .link target) =>
          match links with
          | 0 => .error .tooManyLinks
          | links + 1 =>
            match start? place target with
            | none => .error .notFound
            | some (start, pieces) => world.follow create links start (pieces ++ rest)
        | some _ => world.follow create links (place ++ [name]) rest
    | _ => .error .notFolder
termination_by (links, pieces.length)

def maxLinks : Nat := 40

def find? (world : World) (create : Bool) (path : String) : Except FileError Place :=
  match start? world.here path with
  | none => .error .notFound
  | some (start, pieces) => world.follow create maxLinks start pieces

/-- Where an existing node stands. -/
def place? (world : World) (path : String) : Except FileError Place := world.find? false path

def node? (world : World) (path : String) : Except FileError FileTree := do
  match world.top.at? (← world.place? path) with
  | some node => .ok node
  | none => .error .notFound

def «exists» (world : World) (path : String) : Bool := (world.node? path).isOk

def read? (world : World) (path : String) : Except FileError String := do
  match ← world.node? path with
  | .file (some text) => .ok text
  | .file none => .error .notText
  | _ => .error .isFolder

def pathOf (place : Place) : String := place.foldl Path.join "/"

/-- The absolute path with all links followed. -/
def canonical? (world : World) (path : String) : Except FileError String :=
  (world.place? path).map pathOf

/-- The folder that holds the entry of a path. -/
def parentNode? (world : World) (path : String) : Except FileError FileTree :=
  match Path.parent? path with
  | some "" | none => world.node? "."
  | some parent => world.node? parent

/-- Where an entry stands or would stand. A path with a slash at its end can only be a folder. -/
def target? (world : World) (path : String) : Except FileError Place :=
  match world.find? true path with
  | .error .notFound =>
    if path.toList.getLast? = some '/' && (world.parentNode? path).isOk then .error .isFolder
    else .error .notFound
  | found => found

def writeAt (world : World) (place : Place) (text : String) : World :=
  { world with top := world.top.put place (.file (some text)) }

/-- Replaces the content of a file, or makes the file in an existing folder. -/
def write (world : World) (path text : String) : Except FileError World := do
  let place ← world.target? path
  match world.top.at? place with
  | some (.folder _) => .error .isFolder
  | _ => .ok (world.writeAt place text)

def makeFolder (world : World) (path : String) : Except FileError World := do
  let place ← world.target? path
  match world.top.at? place with
  | some _ => .error .alreadyExists
  | none => .ok { world with top := world.top.put place (.folder []) }

def isFolder (world : World) (path : String) : Bool :=
  match world.node? path with
  | .ok node => node.isFolder
  | .error _ => false

/-- The path and the folders above it, innermost first. -/
def ancestry (fuel : Nat) (path : String) : List String :=
  match fuel, Path.parent? path with
  | fuel + 1, some parent => if path.isEmpty then [] else path :: ancestry fuel parent
  | _, _ => if path.isEmpty then [] else [path]

/-- Makes a folder and those above it that are missing. -/
def makeFolders (world : World) (path : String) : Except FileError World :=
  (ancestry path.length path).reverse.foldlM (fun world folder =>
    if world.isFolder folder then .ok world else world.makeFolder folder) world

/-- Makes the folder that a file of this path goes into, unless there is something there already. -/
def makeFolderFor (world : World) (path : String) : Except FileError World :=
  match Path.parent? path with
  | none | some "" => .ok world
  | some parent => if world.exists parent then .ok world else world.makeFolders parent

end World

mutual

/-- The files at and below a node whose path is `path`, with their paths. Folders below it that
`enter` refuses are passed over, and links are not followed. -/
def walk (enter : String → Bool) (path : String) : FileTree → List (String × Option String)
  | file text => [(path, text)]
  | link _ => []
  | folder entries => walkEntries enter path entries

def walkEntries (enter : String → Bool) (path : String) :
    List (String × FileTree) → List (String × Option String)
  | [] => []
  | (name, node) :: rest =>
    let inner := Path.join path name
    (if node.isFolder && !enter inner then [] else walk enter inner node) ++
      walkEntries enter path rest

end

end FileTree

namespace FileTree.World

/-- The node that a walk from `path` starts at. A link at the end of the path is followed to a
folder, but a file behind it is not taken. -/
def walkStart? (world : World) (path : String) : Option FileTree :=
  match world.node? path with
  | .error _ => none
  | .ok (.folder entries) => some (.folder entries)
  | .ok node =>
    match (world.parentNode? path).toOption.bind (·.child? (Path.fileName path)) with
    | some (.link _) => none
    | _ => some node

def filesBelow (world : World) (enter : String → Bool) (path : String) :
    List (String × Option String) :=
  match world.walkStart? path with
  | none => []
  | some node => node.walk enter path

end FileTree.World

end Inventory
