import Inventory.CommandLine.Program
import Std.Time.DateTime.Timestamp

/-! The program on a real file system. What it may look at is taken into a tree, the library does
its work on the tree, and the files that were written in the tree are written out. -/
namespace Inventory.CommandLine

open FileTree (World Place)
open Text (join)

/-- The text of a file, if it is one. -/
def fileText (folder name : String) : IO (Option String) := do
  let entry : IO.FS.DirEntry := ⟨folder, name⟩
  return String.fromUTF8? (← IO.FS.readBinFile entry.path)

/-- The type of an entry of a folder, if it is there. -/
def entryType (folder name : String) : IO (Option IO.FS.FileType) := do
  let entry : IO.FS.DirEntry := ⟨folder, name⟩
  try return some (← entry.path.symlinkMetadata).type catch _ => return none

/-- Where a link leads; one that leads nowhere leads to the empty path. -/
def linkTarget (folder name : String) : IO String := do
  let entry : IO.FS.DirEntry := ⟨folder, name⟩
  try return (← IO.FS.realPath entry.path).toString catch _ => return ""

/-- Takes in all that is below a folder. Of the files only manifests need their texts. -/
partial def loadFolder (folder : String) : IO FileTree := do
  let mut entries := []
  for entry in ← (← IO.FS.realPath folder).readDir do
    let name := entry.fileName
    let node ← match ← entryType folder name with
      | some .dir => loadFolder (Path.join folder name)
      | some .symlink => pure (.link (← linkTarget folder name))
      | _ =>
        if Wildcard.matchesAny Detector.manifestPatterns name then
          pure (.file (← fileText folder name))
        else pure (.file none)
    entries := SortedMap.upsertEntry name (fun _ => node) entries
  return .folder entries

/-- Takes in what stands on the way of a path down from `place`, and with `deep` all that is below
its end. -/
partial def mount (deep : Bool) (tree : FileTree) (place : Place) : List String → IO FileTree
  | [] => do
    let folder := World.pathOf place
    if deep then return tree.put place (← loadFolder folder) else return tree
  | name :: rest => do
    let folder := World.pathOf place
    let inner := place ++ [name]
    if name = "" || name = "." then mount deep tree place rest
    else if name = ".." then mount deep tree place.dropLast rest
    else match ← entryType folder name with
      | none => return tree
      | some .symlink =>
        let target ← linkTarget folder name
        mount deep (tree.put inner (.link target)) [] (Path.pieces target ++ rest)
      | some .dir =>
        let tree := if (tree.at? inner).isSome then tree else tree.put inner (.folder [])
        mount deep tree inner rest
      | _ => return tree.put inner (.file (← fileText folder name))

def mountPath (deep : Bool) (world : World) (path : String) : IO World := do
  let place := if Path.isAbsolute path then [] else world.here
  return { world with top := ← mount deep world.top place (Path.pieces path) }

/-- The part of the file system that an invocation concerns. -/
def loadWorld (here : Place) (settingsPath : String) (i : Invocation) : IO World := do
  let mut world ← mountPath false ⟨.folder [], here⟩ (World.pathOf here)
  if let .scan o := i.command then world ← mountPath true world o.source
  world ← mountPath false world (i.global.settingsFile.getD settingsPath)
  if let .scan o := i.command then
    let settings := (settings ⟨world, ⟨"", ⟨0, 0, 0⟩⟩, settingsPath⟩ i.global).toOption.getD {}
    for path in settings.telemetryFile.toList ++ o.manifestFile.toList do
      world ← mountPath false world path
  return world

/-- Puts a file of the tree into the file system. -/
def writeOut (world : World) (path : String) : IO Unit := do
  if let .ok text := world.read? path then
    if let some parent := Path.parent? path then
      if parent != "" then IO.FS.createDirAll parent
    IO.FS.writeFile path text

/-- A random id in groups of 8, 4, 4, 4 and 12 hexadecimal digits. -/
def randomId : IO String := do
  let bytes := (← IO.getRandomBytes 16).toList
  let digits := bytes.flatMap fun b => [Json.hexDigit (b.toNat / 16), Json.hexDigit (b.toNat % 16)]
  let group := fun start length => String.ofList ((digits.drop start).take length)
  return join "-" [group 0 8, group 8 4, "4" ++ group 13 3, "a" ++ group 17 3, group 20 12]

def currentInstant : IO Instant := do
  let now ← Std.Time.Timestamp.now
  let seconds := now.val.second.val
  return ⟨seconds.fdiv 86400, (seconds.fmod 86400).toNat, now.val.nano.val.toNat⟩

/-- The settings are in the folder that the user keeps such files in. -/
def findSettingsPath : IO String := do
  let folder ← match ← IO.getEnv "XDG_CONFIG_HOME" with
    | some folder => if Path.isAbsolute folder then pure folder else pure "."
    | none => match ← IO.getEnv "HOME" with
      | some home => pure (Path.join home ".config")
      | none => pure "."
  return Path.join (Path.join folder "compscan") "config.toml"

def perform (arguments : List String) (invocation : Invocation) : IO Response := do
  let here := (Path.components (← IO.currentDir).toString).drop 1
  let settingsPath ← findSettingsPath
  let world ← loadWorld here settingsPath invocation
  let response := run ⟨world, ⟨← randomId, ← currentInstant⟩, settingsPath⟩ arguments
  for path in response.written do writeOut response.world path
  return response

end Inventory.CommandLine

open Inventory.CommandLine in
def main (arguments : List String) : IO UInt32 := do
  match parse? arguments with
  | none =>
    IO.eprint helpText
    return 2
  | some invocation =>
    let response ← perform arguments invocation
    IO.print response.output
    for error in response.error.toList do IO.eprintln ("Error: " ++ error)
    return response.exitCode.toUInt32
