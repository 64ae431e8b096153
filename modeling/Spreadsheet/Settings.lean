import Spreadsheet.Disk
import Spreadsheet.Settings.Toml
import Spreadsheet.Sheet

/-! Settings from a file, over built-in ones. -/
namespace Spreadsheet

structure Settings where
  width : Nat
  height : Nat
  logFilter : String
deriving DecidableEq, Repr

/-- What a settings file says. -/
structure SettingsFile where
  width? : Option Nat
  height? : Option Nat
  logFilter? : Option String
deriving DecidableEq, Repr

inductive SettingsWarning where
  | tooLarge (path : String) (bytes : Nat)
  | unreadable (path : String) (cause : FileError)
  | malformed (path : String)
  | zeroSize (path : String) (dimension : String)
  | emptyFilter (path : String)
deriving DecidableEq, Repr

inductive SettingsError where
  | notFound (path : String)
deriving DecidableEq, Repr

namespace Settings

def builtIn : Settings := ⟨Sheet.defaultWidth, Sheet.defaultHeight, "warn"⟩

/-- Larger files are not read. -/
def maxFileBytes : Nat := 65536

end Settings

def SettingsWarning.message : SettingsWarning → String
  | tooLarge path bytes => s!"Refusing to read {path}: file too large ({bytes} bytes, max " ++
      toString Settings.maxFileBytes ++ ")"
  | unreadable path cause => s!"Failed to read {path}: " ++ cause.message
  | malformed path => s!"Failed to parse {path}:"
  | zeroSize path dimension => s!"Ignoring sheet.{dimension} in {path}: must be at least 1"
  | emptyFilter path => s!"Ignoring empty log.filter in {path}"

def SettingsError.message : SettingsError → String
  | notFound path => s!"Config error in {path}: file not found"

namespace SettingsFile

/-- Tables without other keys than these, and values of these types. A record may also be an array
of its values. -/
def ofToml? (document : String) : Option SettingsFile := do
  let root ← Toml.Tree.fields? ["sheet", "log"] (.table .header (← Toml.read? document))
  let sheet? ← (root.lookup "sheet").mapM (Toml.Tree.fields? ["width", "height"])
  let log? ← (root.lookup "log").mapM (Toml.Tree.fields? ["filter"])
  return {
    width? := ← (sheet?.bind (·.lookup "width")).mapM Toml.Tree.natural?
    height? := ← (sheet?.bind (·.lookup "height")).mapM Toml.Tree.natural?
    logFilter? := ← (log?.bind (·.lookup "filter")).mapM Toml.Tree.string?
  }

end SettingsFile

namespace Settings

/-- A size of zero and an empty filter are passed over with a warning. -/
def override (s : Settings) (path : String) (f : SettingsFile) :
    Settings × List SettingsWarning :=
  let size (old : Nat) (new? : Option Nat) (dimension : String) : Nat × List SettingsWarning :=
    match new? with
    | none => (old, [])
    | some 0 => (old, [.zeroSize path dimension])
    | some n => (n, [])
  let (width, warnings) := size s.width f.width? "width"
  let (height, moreWarnings) := size s.height f.height? "height"
  let (logFilter, filterWarnings) := match f.logFilter?.map fun t => Text.trim t.toList with
    | none => (s.logFilter, [])
    | some [] => (s.logFilter, [.emptyFilter path])
    | some t => (String.ofList t, [])
  (⟨width, height, logFilter⟩, warnings ++ moreWarnings ++ filterWarnings)

/-- The built-in settings, changed as the text of the file at `path` says. -/
def ofText (path content : String) : Settings × List SettingsWarning :=
  if maxFileBytes < content.utf8ByteSize then
    (builtIn, [.tooLarge path content.utf8ByteSize])
  else match SettingsFile.ofToml? content with
    | none => (builtIn, [.malformed path])
    | some f => builtIn.override path f

/-- A file that was asked for must be there; the user's own file may be missing. -/
def load (disk : Disk) (requested : Option String) (userFile : String) :
    Except SettingsError (Settings × List SettingsWarning) :=
  let path := requested.getD userFile
  match disk.read path with
  | .ok content => .ok (ofText path content)
  | .error .isDirectory => .ok (builtIn, [.unreadable path .isDirectory])
  | .error _ => if requested.isSome then .error (.notFound path) else .ok (builtIn, [])

end Settings
end Spreadsheet
