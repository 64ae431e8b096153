import Spreadsheet.Disk
import Spreadsheet.Text.Split

/-! Files in directories, and the way that a path takes to them. -/
namespace Spreadsheet

/-- The names that lead from the top directory to a directory or a file. -/
abbrev Place := List String

/-- Texts by their places. A directory is there when a file is below it; the one in which
relative paths begin is there in any case, and so are those above it. -/
structure FileTree where
  home : Place
  files : List (Place × String)

namespace FileTree

/-- The bytes that a name may have. -/
def nameLimit : Nat := 255

/-- The bytes that a whole path may have. -/
def pathLimit : Nat := 4095

/-- The names between the slashes of a path. -/
def names (path : String) : List String :=
  ((Text.splitOn (· == '/') path.toList).filter (!·.isEmpty)).map String.ofList

/-- Files by their paths from `home`. -/
def ofFiles (home : Place) (named : List (String × String)) : FileTree where
  home := home
  files := named.map fun (path, text) => (home ++ (names path).filter (· != "."), text)

def isDirectory (t : FileTree) (place : Place) : Bool :=
  place.isPrefixOf t.home || t.files.any fun (file, _) => place.isPrefixOf file && place != file

def textAt? (t : FileTree) (place : Place) : Option String :=
  (t.files.find? (·.1 == place)).map (·.2)

/-- The tree with `text` at a place, whatever file was there. -/
def put (t : FileTree) (place : Place) (text : String) : FileTree :=
  { t with files := (place, text) :: t.files.filter (·.1 != place) }

/-- One name further, which takes a directory. The top directory is above itself. -/
def enter (t : FileTree) (place : Place) (name : String) : Except FileError Place :=
  if t.isDirectory place then
    if name = "." then .ok place
    else if name = ".." then .ok place.dropLast
    else if nameLimit < name.utf8ByteSize then .error .nameTooLong
    else .ok (place ++ [name])
  else .error (if (t.textAt? place).isSome then .notDirectory else .missing)

def isAbsolute (path : String) : Bool := path.toList.head? == some '/'

/-- A slash at the end of a path asks for a directory. -/
def wantsDirectory (path : String) : Bool := path.toList.getLast? == some '/'

/-- Follow names from where the path begins. -/
def follow (t : FileTree) (path : String) (names : List String) : Except FileError Place :=
  if path = "" then .error .missing
  else if pathLimit < path.utf8ByteSize then .error .nameTooLong
  else names.foldlM t.enter (if isAbsolute path then [] else t.home)

def read (t : FileTree) (path : String) : Except FileError String := do
  let place ← t.follow path (if wantsDirectory path then names path ++ ["."] else names path)
  match t.textAt? place with
  | some text => return text
  | none => throw (if t.isDirectory place then .isDirectory else .missing)

/-- The directory of the file must be there. A last name with a slash behind it is not looked
up: nothing can be written there. -/
def write (t : FileTree) (path text : String) : Except FileError FileTree := do
  let place ← t.follow path
    (if wantsDirectory path then (names path).dropLast ++ ["."] else names path)
  if t.isDirectory place then throw .isDirectory
  return t.put place text

/-- What a run sees of the tree. -/
def disk (t : FileTree) : Disk where
  read := t.read
  write path := (t.write path "").map fun _ => ()

end FileTree
end Spreadsheet
