import Spreadsheet.Sheet.Edit
import Spreadsheet.Sheet.Shape
import Spreadsheet.Text.Split

/-! Scripts: one edit or command a line, as in

```text
# comment
A1 5
B1 =A1*2
:insert-row 1
:delete-col C
:clear A2
```
-/
namespace Spreadsheet

inductive Command where
  | set (address : Address) (raw : String)
  | clear (address : Address)
  | insert (axis : Axis) (index : Nat)
  | delete (axis : Axis) (index : Nat)
deriving DecidableEq, Repr

inductive CommandError where
  | missingArgument (name : String)
  | extraArgument (extra : String)
  | unknown (name : String)
  | badAddress (text : String)
  | badRow (text : String)
  | badColumn (text : String)
  | rejected (cause : SheetError)
deriving DecidableEq, Repr

def CommandError.message : CommandError → String
  | missingArgument name => s!"Command :{name} requires an argument"
  | extraArgument extra => "Unexpected argument: " ++ extra
  | unknown name => "Unknown command: :" ++ name
  | badAddress text => "Invalid cell address: " ++ text
  | badRow text => "Invalid row number: " ++ text
  | badColumn text => "Invalid column: " ++ text
  | rejected cause => cause.message

/-- Lines count from one. -/
structure ScriptError where
  line : Nat
  cause : CommandError
deriving DecidableEq, Repr

def ScriptError.message (e : ScriptError) : String :=
  s!"Script error at line {e.line}: " ++ e.cause.message

namespace Command

def address (text : List Char) : Except CommandError Address :=
  match Address.ofChars? text with
  | some a => .ok a
  | none => .error (.badAddress (String.ofList text))

/-- Rows are numbered from one. -/
def row (text : List Char) : Except CommandError Nat :=
  match Text.natural? text with
  | some (n + 1) => .ok n
  | _ => .error (.badRow (String.ofList text))

/-- Columns are named by letters of either case. -/
def column (text : List Char) : Except CommandError Nat :=
  match Column.ofLabel? (text.map Char.toUpper) with
  | some c => .ok c
  | none => .error (.badColumn (String.ofList text))

/-- A command by its name, which takes one argument. -/
def ofWords : List (List Char) → Except CommandError Command
  | [] => .error (.missingArgument "")
  | [name] => .error (.missingArgument (String.ofList name))
  | [name, argument] =>
    match String.ofList name with
    | "clear" => Command.clear <$> address argument
    | "insert-row" => .insert .row <$> row argument
    | "delete-row" => .delete .row <$> row argument
    | "insert-col" => .insert .column <$> column argument
    | "delete-col" => .delete .column <$> column argument
    | other => .error (.unknown other)
  | _ :: _ :: extra :: _ => .error (.extraArgument (String.ofList extra))

/-- The command of a line, if it is neither blank nor a comment: behind a colon one with a name,
else an address and what to type there. -/
def ofLine? (line : List Char) : Option (Except CommandError Command) :=
  match Text.trim line with
  | [] => none
  | '#' :: _ => none
  | ':' :: s => some (ofWords (Text.words s))
  | s => some do
    let a ← address (s.takeWhile (!Text.isBlank ·))
    return .set a (String.ofList (Text.dropBlanks (s.dropWhile (!Text.isBlank ·))))

end Command

namespace Sheet

def perform (s : Sheet) : Command → Outcome Unit
  | .set a raw => s.setInput a raw
  | .clear a => s.clear a
  | .insert axis i => s.insertLine axis i
  | .delete axis i => s.deleteLine axis i

/-- The sheet after a line, and why the line failed if it did. -/
def runLine (s : Sheet) (line : List Char) : Sheet × Option CommandError :=
  match Command.ofLine? line with
  | none => (s, none)
  | some (.error e) => (s, some e)
  | some (.ok command) =>
    let outcome := s.perform command
    match outcome.result with
    | .ok _ => (outcome.sheet, none)
    | .error e => (outcome.sheet, some (.rejected e))

/-- Run lines, the first of which has the number `number`, up to the first that fails. -/
def runLines (s : Sheet) (number : Nat) : List (List Char) → Sheet × Option ScriptError
  | [] => (s, none)
  | line :: rest =>
    match s.runLine line with
    | (t, none) => t.runLines (number + 1) rest
    | (t, some cause) => (t, some ⟨number, cause⟩)

def runScript (s : Sheet) (script : String) : Sheet × Option ScriptError :=
  s.runLines 1 (Text.lines script.toList)

end Sheet
end Spreadsheet
