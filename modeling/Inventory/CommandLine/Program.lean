import Inventory.CommandLine.Command
import Inventory.Detector.Registry
import Inventory.LogFormat
import Inventory.Report.Format
import Inventory.Scan.Execution
import Inventory.Settings
import Inventory.Telemetry.Relay

/-! The program: what a command line does to the files, what it prints and how it exits. -/
namespace Inventory.CommandLine

open FileTree (World)
open Text (join)

/-- All that the program depends on but its arguments. -/
structure Environment where
  world : World
  occasion : Occasion
  /-- Where the settings are unless an option says otherwise. -/
  settingsPath : String

structure Response where
  exitCode : Nat
  output : String := ""
  /-- What went wrong. Misuse of the command line has no text of its own. -/
  error : Option String := none
  world : World
  /-- The files that were written. -/
  written : List String := []

def failed (world : World) (written : List String) (error : String) : Response :=
  { exitCode := 1, error := some error, world, written }

def textLines (lines : List String) : String := String.join (lines.map (· ++ "\n"))

def versionText : String := "compscan 0.1.0\n"

def helpText : String :=
  textLines ["Detect open-source components in a source tree", "",
    "Usage: compscan [OPTIONS] <COMMAND>", "", "Commands:",
    "  scan            Scan a directory for components",
    "  list-detectors  List available detectors",
    "  config          Show or create config file"]

/-- The options of a scan that are given take the place of the settings. Detector arguments are
added to those of the settings. -/
def scanArguments (s : Settings) (o : ScanOptions) (source : String) :
    Except String ScanArguments := do
  let arguments := s.scanArguments source
  let added ← (DetectorArgument.parseAll o.detectorArguments).mapError (·.message)
  if o.maxThreads = some 0 then .error "--max-threads must be at least 1"
  return { arguments with
    categories := if o.categories.isEmpty then arguments.categories else o.categories
    detectors := if o.detectors.isEmpty then arguments.detectors else o.detectors
    exclusions := if o.exclusions.isEmpty then arguments.exclusions else o.exclusions
    detectorArguments := arguments.detectorArguments.union added
    maxThreads := o.maxThreads.getD arguments.maxThreads
    timeLimit := (o.timeLimitSeconds.map (· * 1000)).getD arguments.timeLimit }

/-- The format and the arguments of a scan, with the source as an absolute path. -/
def prepare (world : World) (s : Settings) (o : ScanOptions) :
    Except String (Report.Format × ScanArguments) := do
  let format ← Report.Format.parse (o.format.getD s.format)
  let source ← (world.canonical? o.source).mapError fun e =>
    "cannot scan " ++ o.source ++ ": " ++ e.message
  return (format, ← scanArguments s o source)

/-- Adds to the end of a file, which is made if it is missing. -/
def append (world : World) (path text : String) : Except FileError World :=
  match world.read? path with
  | .ok old => world.write path (old ++ text)
  | .error .notText => .ok world
  | .error .notFound => world.write path text
  | .error e => .error e

def telemetryLine (o : Occasion) (r : Telemetry.Record) : String :=
  (Json.object [
    ("name", .string r.name), ("correlationId", .string o.correlationId),
    ("timestamp", .string o.time.text), ("payload", r.payload)]).compact

/-- The records as a relay with one service passes them on. -/
def delivered (records : List Telemetry.Record) : List Telemetry.Record :=
  (((Telemetry.Relay.start 1).run (records.map .post)).shutDown).received 0

/-- Opens the telemetry file, which must be possible before anything is scanned. -/
def openTelemetry (world : World) (path : Option String) : Except String World :=
  match path with
  | none => .ok world
  | some path =>
    (append world path "").mapError fun e =>
      "cannot open telemetry file " ++ path ++ ": " ++ e.message

def writeTelemetry (world : World) (path : Option String) (o : Occasion)
    (records : List Telemetry.Record) : World :=
  match path with
  | none => world
  | some path =>
    (append world path (textLines ((delivered records).map (telemetryLine o)))).toOption.getD world

def writeManifest (world : World) (path : Option String) (r : ScanResult) : Except String World :=
  match path with
  | none => .ok world
  | some path => (r.writeTo path world).mapError (·.message)

/-- Gives out the result of a scan. Of the manifest file only people are told. -/
def resultText (format : Report.Format) (o : ScanOptions) (r : ScanResult) : String :=
  if o.printManifest then r.text ++ "\n"
  else match format with
    | .json => r.text ++ "\n"
    | .table =>
      textLines (o.manifestFile.toList.map ("Manifest written to: " ++ ·)) ++ Report.listing r

def scanCommand (env : Environment) (s : Settings) (o : ScanOptions) : Response :=
  match prepare env.world s o with
  | .error e => failed env.world [] e
  | .ok (format, arguments) =>
    match openTelemetry env.world s.telemetryFile with
    | .error e => failed env.world [] e
    | .ok world =>
      let scan := Inventory.scan world Detector.builtIn arguments env.occasion
      let world := writeTelemetry world s.telemetryFile env.occasion scan.records
      let written := s.telemetryFile.toList
      match scan.result with
      | .error e => failed world written e.message
      | .ok result =>
        match writeManifest world o.manifestFile result with
        | .error e => failed world written e
        | .ok world =>
          { exitCode := result.outcome.exitCode
            output := resultText format o result
            world
            written := written ++ o.manifestFile.toList }

/-- Fills a text up to a width with spaces after it. -/
def padRight (width : Nat) (s : String) : String := s.pushn ' ' (width - s.toList.length)

def detectorFlags (d : Detector) : List String :=
  (if d.experimental then ["experimental"] else []) ++ if d.defaultOff then ["default-off"] else []

def detectorLines (d : Detector) : List String :=
  ("  " ++ padRight 14 d.id ++ " v" ++ padRight 4 (toString d.version) ++ " " ++
    join ", " (d.categories.map (·.label))) ::
  if (detectorFlags d).isEmpty then []
  else ["  " ++ padRight 14 "" ++ " [" ++ join ", " (detectorFlags d) ++ "]"]

def listDetectors : String :=
  textLines (["Available detectors:", ""] ++ Detector.builtIn.flatMap detectorLines)

def initSettings (env : Environment) : Response :=
  let path := env.settingsPath
  if env.world.exists path then
    { exitCode := 0, output := textLines ["Config file already exists at: " ++ path]
      world := env.world }
  else match Settings.save {} env.world path with
    | .error e => failed env.world [] e
    | .ok world =>
      { exitCode := 0
        output := textLines ["Created config file at: " ++ path, "", "Default configuration:",
          Settings.standardText]
        world
        written := [path] }

def showSettings (env : Environment) : Response :=
  let path := env.settingsPath
  if env.world.exists path then
    match env.world.read? path with
    | .error e => failed env.world [] e.message
    | .ok text =>
      { exitCode := 0, output := textLines ["Config file: " ++ path, "", text], world := env.world }
  else
    { exitCode := 0
      output := textLines ["No config file found.", "Run 'compscan config --init' to create one.",
        "", "Config path: " ++ path]
      world := env.world }

def settingsCommand (env : Environment) (write showPath : Bool) : Response :=
  if showPath then
    { exitCode := 0, output := textLines [env.settingsPath], world := env.world }
  else if write then initSettings env
  else showSettings env

/-- The settings in force. A broken file is an error only if an option names it. -/
def settings (env : Environment) (g : GlobalOptions) : Except Error Settings :=
  match g.settingsFile with
  | some path => Settings.load env.world path
  | none => .ok ((Settings.load env.world env.settingsPath).toOption.getD {})

def respond (env : Environment) (s : Settings) : Command → Response
  | .scan options => scanCommand env s options
  | .listDetectors => { exitCode := 0, output := listDetectors, world := env.world }
  | .settings write showPath => settingsCommand env write showPath
  | .help => { exitCode := 0, output := helpText, world := env.world }
  | .version => { exitCode := 0, output := versionText, world := env.world }

/-- Settings and log format must be in order before any command. -/
def invoke (env : Environment) (i : Invocation) : Response :=
  match settings env i.global with
  | .error e => failed env.world [] e.message
  | .ok s =>
    match LogFormat.parse (i.global.logFormat.getD s.logFormat) with
    | .error e => failed env.world [] e
    | .ok _ => respond env s i.command

def run (env : Environment) (arguments : List String) : Response :=
  match parse? arguments with
  | none => { exitCode := 2, world := env.world }
  | some ⟨_, .help⟩ => respond env {} .help
  | some ⟨_, .version⟩ => respond env {} .version
  | some invocation => invoke env invocation

end Inventory.CommandLine
