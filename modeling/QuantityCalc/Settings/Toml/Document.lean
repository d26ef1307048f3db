import QuantityCalc.Settings.Toml.Scalar

/-!
# Documents of TOML

A document is a list of lines: assignments, headings `[path]` of tables, headings `[[path]]` of
lists of tables, and lines without content. Lists and tables in braces may be nested to a limit.

`assignments?` gives the assignments of a document; there are none if it is not of this form or if
it opens a table or assigns a key twice.
-/

namespace QuantityCalc.Settings.Toml

open Reader

/-- How deep lists and tables in braces may be nested. -/
def roomForValues : Nat := 79

/-- How many names a key may have. -/
def roomForNames : Nat := 79

/-- Blanks in a line. -/
def spaces : Reader Unit := (fun _ => ()) <$> span isSpace

/-- A comment, up to the end of the line. -/
def comment : Reader Unit := do
  word ['#']
  let _ ← span isPlain

/-- Blanks, comments and line breaks. -/
def gap : Reader Unit :=
  (fun _ => ()) <$> many ((fun _ => ()) <$> span1 isSpace <|> comment <|> lineBreak)

/-- Blanks and a comment. -/
def trailing : Reader Unit := spaces *> (fun _ => ()) <$> maybe comment

/-- A name in a key. -/
def name : Reader String :=
  String.ofList <$> (quoted <|> span1 fun c => c.isAlphanum || c = '_' || c = '-')

/-- A key: names with dots between them. -/
def key : Reader (List String) := do
  let path ← separated1 (spaces *> name <* spaces) (word ['.'])
  if path.length ≤ roomForNames then return path else failure

/-- An assignment to a key. -/
def entry (value : Reader Node) : Reader (List String × Node) := do
  let path ← key
  word ['=']
  spaces
  return (path, ← value)

/-- A list of values. A comma may stand behind the last one. -/
def list (value : Reader Node) : Reader Node := do
  word ['[']
  let items ← (do
    let items ← separated1 (gap *> value <* gap) (word [','])
    let _ ← maybe (word [','])
    return items) <|> pure []
  gap
  word [']']
  return .list items

/-- A table in braces. -/
def braces (value : Reader Node) : Reader Node := do
  word ['{']
  let entries ← separated1 (entry value <* spaces) (word [',']) <|> spaces *> pure []
  word ['}']
  match entries.foldlM (fun table (path, n) => give? path n table) [] with
  | some entries => return .table .braces [] entries
  | none => failure

/-- A value, with room for so many levels of lists and tables. -/
def value : (room : Nat) → Reader Node
  | 0 => scalar
  | room + 1 => scalar <|> list (value room) <|> braces (value room)

/-- What a line says. -/
inductive Line where
  /-- An assignment to a key of the open table. -/
  | entry (path : List String) (n : Node)
  /-- The heading of a table. -/
  | heading (path : List String)
  /-- The heading of one more table of a list. -/
  | element (path : List String)

/-- What a line says, if it says something. -/
def content : Reader (Option Line) := do
  spaces
  let line ← maybe (
    (Line.element <$> (word ['[', '['] *> key <* word [']', ']'])) <|>
    (Line.heading <$> (word ['['] *> key <* word [']'])) <|>
    (fun (path, n) => Line.entry path n) <$> entry (value roomForValues))
  trailing
  return line

/-- The lines of a document that say something. A mark of the order of bytes may stand before the
first one. -/
def document : Reader (List Line) := do
  let _ ← maybe (word ['\uFEFF'])
  return (← separated1 content lineBreak).filterMap id

/-- The open table and the tables so far, after one more line. -/
def step (state : List String × Entries) (line : Line) : Option (List String × Entries) := do
  let (opened, root) := state
  match line with
  | .entry path n => return (opened, ← assign? opened path n root)
  | .heading path => return (path, ← openTable? path root)
  | .element path => return (path, ← openElement? path root)

/-- The assignments of a document: of the values of its outermost table, whose names may be keys of
several steps in quotes. -/
def assignments? (t : Text) : Option (List Assignment) := do
  let lines ← document.whole? t
  let (_, root) ← lines.foldlM step ([], [])
  match ← tableValue? moment.whole? root with
  | .table members => return members.map fun (name, v) => ⟨Key.ofText name.toList, v⟩
  | _ => failure

end QuantityCalc.Settings.Toml
