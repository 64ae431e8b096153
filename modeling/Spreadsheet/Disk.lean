/-! The files that a run can see, by path. -/
namespace Spreadsheet

inductive FileError where
  | missing
  | notDirectory
  | isDirectory
  | nameTooLong
deriving DecidableEq, Repr

def FileError.message : FileError → String
  | missing => "No such file or directory (os error 2)"
  | notDirectory => "Not a directory (os error 20)"
  | isDirectory => "Is a directory (os error 21)"
  | nameTooLong => "File name too long (os error 36)"

/-- `write` says whether the file at a path can be written. -/
structure Disk where
  read : String → Except FileError String
  write : String → Except FileError Unit

end Spreadsheet
