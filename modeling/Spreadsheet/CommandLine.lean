import Spreadsheet.Csv
import Spreadsheet.Script
import Spreadsheet.Settings

/-! The command line: options, and a run from a script to a table of values. -/
namespace Spreadsheet.CommandLine

/-- What the options ask for. A script named `-` is standard input. -/
structure Options where
  script : Option String
  config : Option String
  noConfig : Bool
  output : Option String
  width : Option Nat
  height : Option Nat
deriving DecidableEq, Repr

def Options.none : Options := ⟨.none, .none, false, .none, .none, .none⟩

inductive UsageError where
  | missingPath (option : String)
  | missingValue (option : String)
  | notPositive (option : String)
  | unknownOption (text : String)
  | unexpectedArgument (text : String)
deriving DecidableEq, Repr

inductive Request where
  | help
  | run (options : Options)
deriving DecidableEq, Repr

def usage : String :=
  String.join <| List.map (· ++ "\n") [
    "Usage: cellflow [OPTIONS] [SCRIPT]",
    "",
    "Arguments:",
    "  [SCRIPT]                  Script of cell edits to run (default: stdin)",
    "",
    "Options:",
    "  -c, --config <FILE>       Load settings from FILE instead of cellflow.toml",
    "  --no-config               Ignore the user's cellflow.toml",
    "  -o, --output <FILE>       Write CSV to FILE instead of stdout",
    "  --width <N>               Number of columns",
    "  --height <N>              Number of rows",
    "  -h, --help                Print help"]

/-- An argument that cannot be placed at all is answered with the usage. -/
def UsageError.message : UsageError → String
  | missingPath option => s!"Error: {option} requires a file path\n"
  | missingValue option => s!"Error: {option} requires a value\n"
  | notPositive option => s!"Error: {option} requires a positive number\n"
  | unknownOption text => s!"Error: Unknown option: {text}\n" ++ usage
  | unexpectedArgument text => s!"Error: Unexpected argument: {text}\n" ++ usage

def size (option text : String) : Except UsageError Nat :=
  match Text.natural? text.toList with
  | some (n + 1) => .ok (n + 1)
  | _ => .error (.notPositive option)

/-- Arguments count from left to right: a later option replaces an earlier one, and what stands
behind a call for help is not looked at. -/
def readArguments (o : Options) : List String → Except UsageError Request
  | [] => .ok (.run o)
  | "-h" :: _ | "--help" :: _ => .ok .help
  | ["-c"] | ["--config"] => .error (.missingPath "--config")
  | "-c" :: path :: rest | "--config" :: path :: rest =>
    readArguments { o with config := some path } rest
  | "--no-config" :: rest => readArguments { o with noConfig := true } rest
  | ["-o"] | ["--output"] => .error (.missingPath "--output")
  | "-o" :: path :: rest | "--output" :: path :: rest =>
    readArguments { o with output := some path } rest
  | ["--width"] => .error (.missingValue "--width")
  | "--width" :: text :: rest => do
    readArguments { o with width := some (← size "--width" text) } rest
  | ["--height"] => .error (.missingValue "--height")
  | "--height" :: text :: rest => do
    readArguments { o with height := some (← size "--height" text) } rest
  | text :: rest =>
    if text.toList.head? = some '-' ∧ text ≠ "-" then .error (.unknownOption text)
    else if o.script.isSome then .error (.unexpectedArgument text)
    else readArguments { o with script := some text } rest

def request (arguments : List String) : Except UsageError Request :=
  readArguments .none arguments

/-- The file of the script, unless it comes from standard input. -/
def Options.scriptFile (o : Options) : Option String := o.script.filter (· != "-")

/-- The user's settings below the directory of settings. -/
def userSettings (configHome : String) : String := configHome ++ "/cellflow/cellflow.toml"

/-- The paths that a run with these options reads. -/
def Options.reads (configHome : String) (o : Options) : List String :=
  (if o.noConfig then [] else [o.config.getD (userSettings configHome)]) ++ o.scriptFile.toList

inductive RunError where
  | settings (cause : SettingsError)
  | unreadableScript (path : String) (cause : FileError)
  | script (cause : ScriptError)
  | unwritable (path : String) (cause : FileError)
deriving DecidableEq, Repr

/-- An error of a file is told with the chain of its causes. -/
def RunError.message : RunError → String
  | settings cause => s!"Error: {cause.message}\n"
  | unreadableScript path cause => s!"Error: Failed to read script {path}\n" ++ causes cause
  | script cause => s!"Error: {cause.message}\n"
  | unwritable path cause => s!"Error: Failed to write {path}\n" ++ causes cause
where
  causes (cause : FileError) : String :=
    s!"\nCaused by:\n    0: IO error: {cause.message}\n    1: {cause.message}\n"

/-- What a run leaves behind: an exit code, texts, and a file to be written. -/
structure Report where
  code : Nat
  stdout : String
  stderr : String
  written : Option (String × String)
deriving DecidableEq, Repr

/-- The settings before the options change them. -/
def settings (disk : Disk) (configHome : String) (o : Options) :
    Except SettingsError (Settings × List SettingsWarning) :=
  if o.noConfig then .ok (.builtIn, [])
  else Settings.load disk o.config (userSettings configHome)

def scriptText (disk : Disk) (stdin : String) (o : Options) : Except RunError String :=
  match o.scriptFile with
  | none => .ok stdin
  | some path => (disk.read path).mapError (.unreadableScript path)

/-- The values after the script. A size among the options goes before that of the settings. -/
def values (disk : Disk) (stdin : String) (o : Options) (s : Settings) :
    Except RunError String := do
  let script ← scriptText disk stdin o
  let sheet := Sheet.ofSize (o.width.getD s.width) (o.height.getD s.height)
  match sheet.runScript script with
  | (_, some e) => throw (.script e)
  | (sheet, none) => return sheet.toCsv

def deliver (disk : Disk) (o : Options) (csv : String) : Except RunError Report :=
  match o.output with
  | none => .ok ⟨0, csv, "", none⟩
  | some path => do
    (disk.write path).mapError (.unwritable path)
    return ⟨0, "", s!"Exported to {path}\n", some (path, csv)⟩

def execute (disk : Disk) (configHome stdin : String) (o : Options) : Report :=
  match settings disk configHome o with
  | .error e => ⟨1, "", (RunError.settings e).message, none⟩
  | .ok (s, warnings) =>
    let warned := String.join (warnings.map fun w => s!"Warning: {w.message}\n")
    match values disk stdin o s >>= deliver disk o with
    | .error e => ⟨1, "", warned ++ e.message, none⟩
    | .ok report => { report with stderr := warned ++ report.stderr }

/-- Settings of the user are below `configHome`. -/
def run (disk : Disk) (configHome stdin : String) (arguments : List String) : Report :=
  match request arguments with
  | .error e => ⟨1, "", e.message, none⟩
  | .ok .help => ⟨0, "", usage, none⟩
  | .ok (.run o) => execute disk configHome stdin o

end Spreadsheet.CommandLine
