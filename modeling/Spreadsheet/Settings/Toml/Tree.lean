/-! The tables of a TOML document, and how its keys and headers build them. -/
namespace Spreadsheet.Toml

/-- How a table came about: a header names it, dotted keys go through it, a header names a table
below it, or it stands in braces. -/
inductive Origin where
  | header | dotted | implied | braces
deriving DecidableEq, Repr

/-- A value. Nothing here asks what a boolean, a fraction or a date is. The tables of an array with
headers come one by one, so there is always a latest. -/
inductive Tree where
  | integer (n : Int)
  | string (text : String)
  | other
  | array (elements : List Tree)
  | table (origin : Origin) (entries : List (String × Tree))
  | tables (latest : List (String × Tree)) (earlier : List (List (String × Tree)))

/-- Values by their keys. -/
abbrev Table := List (String × Tree)

namespace Table

/-- The table with `value` at a key, whatever was there. -/
def set (t : Table) (key : String) (value : Tree) : Table :=
  (key, value) :: t.filter (·.1 != key)

/-- Put a value below dotted keys. A key stands once, and a table that was not made by dotted keys
cannot be extended by them. -/
def insert (value : Tree) : List String → Table → Option Table
  | [], _ => none
  | [key], t => if (t.lookup key).isSome then none else some ((key, value) :: t)
  | key :: path, t =>
    match t.lookup key with
    | none => return t.set key (.table .dotted (← insert value path []))
    | some (.table .dotted inner) => return t.set key (.table .dotted (← insert value path inner))
    | some _ => none

/-- Change the table at the end of a path of headers. Tables in braces are complete, and of an array
it is the latest table that goes on. -/
def change (f : Table → Option Table) : List String → Table → Option Table
  | [], t => f t
  | key :: path, t =>
    match t.lookup key with
    | none => return t.set key (.table .implied (← change f path []))
    | some (.table .braces _) => none
    | some (.table origin inner) => return t.set key (.table origin (← change f path inner))
    | some (.tables latest earlier) =>
      return t.set key (.tables (← change f path latest) earlier)
    | some _ => none

/-- Name a table by a header, once. -/
def define (key : String) (t : Table) : Option Table :=
  match t.lookup key with
  | none => some (t.set key (.table .header []))
  | some (.table .implied inner) => some (t.set key (.table .header inner))
  | some _ => none

/-- Begin a further table of an array. -/
def append (key : String) (t : Table) : Option Table :=
  match t.lookup key with
  | none => some (t.set key (.tables [] []))
  | some (.tables latest earlier) => some (t.set key (.tables [] (latest :: earlier)))
  | some _ => none

end Table

namespace Tree

def natural? : Tree → Option Nat
  | integer (.ofNat n) => some n
  | _ => none

def string? : Tree → Option String
  | string text => some text
  | _ => none

/-- The fields of a record: the entries of a table if it has no others, or the elements of an array
in this order, where those behind the last field do not count. -/
def fields? (names : List String) : Tree → Option Table
  | table _ entries => if entries.all (·.1 ∈ names) then some entries else none
  | array elements => if names.length ≤ elements.length then some (names.zip elements) else none
  | _ => none

end Tree

/-- What a line says, unless it says nothing. -/
inductive Statement where
  | header (path : List String)
  | element (path : List String)
  | entry (path : List String) (value : Tree)

/-- The header under which the next line stands, and all tables so far. -/
structure Document where
  current : List String
  root : Table

namespace Document

def empty : Document := ⟨[], []⟩

def extend (d : Document) : Statement → Option Document
  | .header path => do
    let key ← path.getLast?
    return ⟨path, ← d.root.change (Table.define key) path.dropLast⟩
  | .element path => do
    let key ← path.getLast?
    return ⟨path, ← d.root.change (Table.append key) path.dropLast⟩
  | .entry path value => do
    return { d with root := ← d.root.change (Table.insert value path) d.current }

end Document
end Spreadsheet.Toml
