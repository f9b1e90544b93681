import Inventory.CommandLine.Option
import Inventory.Word

/-! The commands of the program and their options. -/
namespace Inventory.CommandLine

structure ScanOptions where
  source : String := "."
  categories : List String := []
  detectors : List String := []
  detectorArguments : List String := []
  exclusions : List String := []
  /-- The file that the result is written to. -/
  manifestFile : Option String := none
  /-- The result goes out as JSON, whatever the format. -/
  printManifest : Bool := false
  format : Option String := none
  maxThreads : Option Nat := none
  timeLimitSeconds : Option Nat := none
  deriving DecidableEq, Repr

inductive Command where
  | scan (options : ScanOptions)
  | listDetectors
  /-- Shows the settings, or writes or names their file. -/
  | settings (write showPath : Bool)
  | help
  | version
  deriving DecidableEq, Repr

/-- The options that every command takes. -/
structure GlobalOptions where
  settingsFile : Option String := none
  logLevel : Option String := none
  logFormat : Option String := none
  deriving DecidableEq, Repr

structure Invocation where
  global : GlobalOptions
  command : Command
  deriving DecidableEq, Repr

def helpSpec : OptionSpec := { name := "help", letter := some 'h', kind := .ending }
def versionSpec : OptionSpec := { name := "version", letter := some 'V', kind := .ending }

def globalSpecs : List OptionSpec :=
  [{ name := "config", kind := .path }, { name := "log-level", kind := .text },
   { name := "log-format", kind := .text }, helpSpec]

def scanSpecs : List OptionSpec :=
  [{ name := "source-directory", letter := some 's', kind := .path },
   { name := "detector-categories", kind := .texts },
   { name := "detectors-filter", kind := .texts },
   { name := "detector-args", kind := .texts },
   { name := "directory-exclusion-list", kind := .texts },
   { name := "manifest-file", kind := .path },
   { name := "print-manifest", kind := .flag },
   { name := "format", letter := some 'f', kind := .text },
   { name := "max-threads", kind := .number Word.limit64 },
   { name := "experimental-timeout", kind := .number Word.limit64 }]

def settingsSpecs : List OptionSpec :=
  [{ name := "init", kind := .flag }, { name := "path", kind := .flag }]

def scanOptions (given : List Given) : ScanOptions where
  source := (value? "source-directory" given).getD "."
  categories := texts "detector-categories" given
  detectors := texts "detectors-filter" given
  detectorArguments := texts "detector-args" given
  exclusions := texts "directory-exclusion-list" given
  manifestFile := value? "manifest-file" given
  printManifest := has "print-manifest" given
  format := value? "format" given
  maxThreads := (value? "max-threads" given).bind (number? Word.limit64)
  timeLimitSeconds := (value? "experimental-timeout" given).bind (number? Word.limit64)

/-- The options of a command by its name, and what they make of it. -/
def command? : String → Option (List OptionSpec × (List Given → Command))
  | "scan" => some (scanSpecs, fun given => .scan (scanOptions given))
  | "list-detectors" => some ([], fun _ => .listDetectors)
  | "config" => some (settingsSpecs, fun given => .settings (has "init" given) (has "path" given))
  | _ => none

/-- A global option counts most where it is given last, after the name of the command. -/
def globalOptions (before after : List Given) : GlobalOptions where
  settingsFile := (value? "config" after).or (value? "config" before)
  logLevel := (value? "log-level" after).or (value? "log-level" before)
  logFormat := (value? "log-format" after).or (value? "log-format" before)

/-- Options for all commands, the name of a command, and more options. -/
def parse? (arguments : List String) : Option Invocation := do
  let specs := versionSpec :: globalSpecs
  let (before, rest) ← options? specs arguments
  if !noneRepeated specs before then none
  if has "help" before then return ⟨{}, .help⟩
  if has "version" before then return ⟨{}, .version⟩
  match rest with
  | [] | "help" :: _ :: _ :: _ => none
  | ["help"] | ["help", "help"] => return ⟨{}, .help⟩
  | ["help", name] => (command? name).map fun _ => ⟨{}, .help⟩
  | name :: rest =>
    let (own, make) ← command? name
    let specs := own ++ globalSpecs
    let (after, rest) ← options? specs rest
    if !noneRepeated specs after then none
    if has "help" after then return ⟨{}, .help⟩
    if !rest.isEmpty then none
    return ⟨globalOptions before after, make after⟩

end Inventory.CommandLine
