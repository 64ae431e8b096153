import Spreadsheet.CommandLine

/-! The program: it reads the files that a run needs, runs, and delivers what the run reports. -/
namespace Spreadsheet.CommandLine

def fileError? : IO.Error → Option FileError
  | .noFileOrDirectory .. => some .missing
  | .inappropriateType _ code _ => some (if code = 21 then .isDirectory else .notDirectory)
  | .invalidArgument _ code _ => if code = 36 ∨ -code = 36 then some .nameTooLong else none
  | _ => none

def attempt {α : Type} (act : IO α) : IO (Except FileError α) := do
  try return .ok (← act)
  catch e => match fileError? e with
    | some cause => return .error cause
    | none => throw e

/-- What was read beforehand, and how writing goes. -/
def diskOf (held : List (String × Except FileError String)) (writing : Except FileError Unit) :
    Disk where
  read path := ((held.find? (·.1 == path)).map (·.2)).getD (.error .missing)
  write _ := writing

/-- The directory of the user's settings. -/
def configHome : IO String := do
  match ← IO.getEnv "XDG_CONFIG_HOME" with
  | some path => if path.startsWith "/" then return path else below (← IO.getEnv "HOME")
  | none => below (← IO.getEnv "HOME")
where
  below (home : Option String) : IO String := return home.getD "" ++ "/.config"

end Spreadsheet.CommandLine

open Spreadsheet CommandLine in
def main (arguments : List String) : IO UInt32 := do
  let home ← configHome
  let options := match request arguments with
    | .ok (.run o) => some o
    | _ => none
  let held ← ((options.map (·.reads home)).getD []).mapM fun (path : String) =>
    return (path, ← attempt (IO.FS.readFile path))
  let stdin ← match options.map (·.scriptFile) with
    | some none => (← IO.getStdin).readToEnd
    | _ => pure ""
  let report := run (diskOf held (.ok ())) home stdin arguments
  let report ← match report.written with
    | none => pure report
    | some (path, csv) =>
      match ← attempt (IO.FS.writeFile path csv) with
      | .ok _ => pure report
      | .error cause => pure (run (diskOf held (.error cause)) home stdin arguments)
  (← IO.getStderr).putStr report.stderr
  (← IO.getStdout).putStr report.stdout
  return report.code.toUInt32
