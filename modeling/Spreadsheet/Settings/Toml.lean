import Spreadsheet.Settings.Toml.Scalar
import Spreadsheet.Settings.Toml.Tree

/-! Reading TOML 1.0. -/
namespace Spreadsheet.Toml
open Reader

/-- Paths are shorter than this, and so many brackets are too many. -/
def depthLimit : Nat := 80

/-- Keys with points between them. -/
def path : Reader (List String) := do
  let keys ← separated (mark '.') (spaces *> key <* spaces)
  guard (keys.length < depthLimit)
  return keys

def entry (value : Reader Tree) : Reader (List String × Tree) := do
  let keys ← path <* mark '=' <* spaces
  return (keys, ← value)

/-- A comma may stand behind the last element. -/
def array (value : Reader Tree) : Reader Tree := do
  mark '['
  let elements ← separated (mark ',') (blanks *> value <* blanks) <* optional (mark ',') <|> pure []
  blanks *> mark ']'
  return .array elements

/-- A table on one line. -/
def inlineTable (value : Reader Tree) : Reader Tree := do
  mark '{'
  let entries ← separated (mark ',') (entry value <* spaces) <|> pure []
  spaces *> mark '}'
  let inner ← entries.foldlM (fun t (keys, v) => Table.insert v keys t) []
  return .table .braces inner

def plainValue : Reader Tree :=
  Tree.string <$> string <|>
  (moment <|> fractional <|> nonFinite <|> word "true" <|> word "false") *> pure .other <|>
  Tree.integer <$> integer

/-- A value with brackets inside of each other so many times at most. -/
def value : Nat → Reader Tree
  | 0 => plainValue
  | depth + 1 => plainValue <|> array (value depth) <|> inlineTable (value depth)

def statement : Reader Statement :=
  Statement.element <$> (word "[[" *> path <* word "]]") <|>
  Statement.header <$> (mark '[' *> path <* mark ']') <|>
  (fun (keys, v) => Statement.entry keys v) <$> entry (value (depthLimit - 1))

/-- A byte order mark may stand in front. -/
def statements : Reader (List Statement) := do
  optional (mark '\ufeff') *> blanks
  many (statement <* lineEnd <* blanks) <* optional comment <* atEnd

/-- The table that a text describes. -/
def read? (text : String) : Option Table := do
  let found ← statements.run' text.toList
  return (← found.foldlM Document.extend .empty).root

end Spreadsheet.Toml
