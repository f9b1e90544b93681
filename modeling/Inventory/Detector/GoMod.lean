import Inventory.Detector.Manifest

/-! Module files of Go. Their `require` directives stand on a line each or in a block, and mark what
the module needs only through others as indirect. -/
namespace Inventory.GoMod

open Text

structure Requirement where
  path : String
  version : String
  indirect : Bool
  deriving DecidableEq, Repr

/-- A path, a version and perhaps a comment. -/
def requirement? (line : List Char) : Option Requirement :=
  match words (upTo ['/', '/'] line) with
  | [path, version] =>
    let comment := ((cutAt? ['/', '/'] line).map (·.2)).getD []
    some ⟨String.ofList path, String.ofList version,
      (splitAt ';' comment).any (trim · == "indirect".toList)⟩
  | _ => none

def keyword : List Char := "require".toList

/-- The requirements of a module file, `inBlock` at its beginning or in a block. -/
def requirementLines (inBlock : Bool) : List (List Char) → List (List Char)
  | [] => []
  | line :: rest =>
    let line := trim line
    if inBlock then
      if startsWith [')'] line then requirementLines false rest
      else if line.isEmpty || startsWith ['/', '/'] line then requirementLines true rest
      else line :: requirementLines true rest
    else match (dropLiteral? keyword line).map trim with
      | none | some [] => requirementLines false rest
      | some (c :: more) =>
        if c = '(' then requirementLines true rest
        else (c :: more) :: requirementLines false rest

/-- Records the requirements in turn, up to one of what is no component. -/
def recordLines (r : FileRecorder) : List (List Char) → FileRecorder × Option String
  | [] => (r, none)
  | line :: rest =>
    match requirement? line with
    | none => recordLines (r.addFailure (String.ofList line)) rest
    | some q =>
      match (Component.go q.path q.version none).checked with
      | .ok c => recordLines (r.register { component := c } { explicit := !q.indirect }) rest
      | .error e => (r, some e.message)

def read (world : FileTree.World) : Manifest.Reader := fun m text r =>
  match recordLines r (requirementLines false (lines text.toList)) with
  | (r, none) => (m.addSibling world "go.sum" r, none)
  | (r, some reason) => (r, some reason)

def patterns : List String := ["go.mod"]

def detector : Detector where
  id := "GoMod"
  version := 1
  categories := [.goMod]
  ecosystems := [.go]
  run := Manifest.run patterns "goModFiles" fun world _ => read world

end Inventory.GoMod
