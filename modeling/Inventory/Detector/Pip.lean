import Inventory.Detector.Manifest

/-! Requirements of pip. Only an exact pin names one component; any other requirement leaves the
version open and is noted as a failure. -/
namespace Inventory.Pip

open Text

inductive Requirement where
  | pinned (name version : String)
  | unpinned (text : String)
  /-- An option of the program that reads the file. -/
  | option
  deriving DecidableEq, Repr

/-- What a line requires, once a comment and an environment marker are cut off. -/
def requirement? (line : List Char) : Option Requirement :=
  let line := trim (upTo [';'] (upTo ['#'] line))
  if line.isEmpty then none
  else if startsWith ['-'] line then some .option
  else match cutAt? ['=', '='] line with
    | none => some (.unpinned (String.ofList line))
    | some (spec, version) =>
      let name := trim (upTo ['['] spec)
      let version := trim version
      if name.isEmpty || version.isEmpty || version.contains ',' || version.contains '*' then
        some (.unpinned (String.ofList line))
      else some (.pinned (String.ofList name) (String.ofList version))

/-- Records the lines in turn, up to one that pins what is no component. -/
def recordLines (r : FileRecorder) : List (List Char) → FileRecorder × Option String
  | [] => (r, none)
  | line :: rest =>
    match requirement? line with
    | some (.pinned name version) =>
      match (Component.pip name version none none).checked with
      | .ok c => recordLines (r.register { component := c } { explicit := true }) rest
      | .error e => (r, some e.message)
    | some (.unpinned text) => recordLines (r.addFailure text) rest
    | some .option | none => recordLines r rest

def read : Manifest.Reader := fun _ text r => recordLines r (lines text.toList)

def patterns : List String := ["*requirements.txt"]

def detector : Detector where
  id := "Pip"
  version := 1
  categories := [.pip]
  ecosystems := [.pip]
  run := Manifest.run patterns "requirementFiles" fun _ _ => read

end Inventory.Pip
