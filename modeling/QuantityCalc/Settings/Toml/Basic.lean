import QuantityCalc.Settings.Assignment

/-!
# Tables of TOML

A document in TOML denotes a tree of tables. It grows while the document is read: a heading opens a
table, and an assignment gives a value to a key in the open one. A table is opened once, and a key
is assigned once; `openTable?`, `openElement?` and `assign?` fail otherwise.
-/

namespace QuantityCalc.Settings.Toml

/-- How a table came about. -/
inductive Origin where
  /-- It was written in braces, which finishes it. -/
  | braces
  /-- A heading opened it. -/
  | heading
  /-- It stands on the way to a table with a heading, and may still get its own. -/
  | way
  /-- It stands on the way to a key of an assignment. -/
  | dots
  /-- It is the last table of a list of tables, which all have the same heading. -/
  | element
deriving DecidableEq

/-- A value, a list or a table. -/
inductive Node where
  /-- A value that is neither a list nor a table. -/
  | scalar (v : Value)
  /-- A date or a time, in its normal form. -/
  | moment (t : Text)
  /-- A list in brackets. -/
  | list (items : List Node)
  /-- A table. Before the last table of a list of tables come the other ones. -/
  | table (origin : Origin) (before : List Node) (entries : List (String × Node))

/-- What a table holds, in the order in which it got there. -/
abbrev Entries := List (String × Node)

/-- The entries with another node for a name, or with one more at the end. -/
def put (entries : Entries) (name : String) (n : Node) : Entries :=
  match entries with
  | [] => [(name, n)]
  | (other, m) :: rest => if other = name then (name, n) :: rest else (other, m) :: put rest name n

/-- The entries without the one of a name. -/
def without (entries : Entries) (name : String) : Entries := entries.filter (·.1 ≠ name)

/-- Changes a table below another one. Tables that are missing on the way are made. -/
def below (missing : Origin) (passes : Origin → Bool) (change : Origin → Entries → Option Entries) :
    List String → Origin → Entries → Option Entries
  | [], origin, entries => change origin entries
  | name :: path, _, entries => do
    let (origin, before, inner) ← match entries.lookup name with
      | none => some (missing, [], [])
      | some (.table origin before inner) =>
        if passes origin then some (origin, before, inner) else none
      | some _ => none
    let inner ← below missing passes change path origin inner
    return put entries name (.table origin before inner)

/-- Changes the table that a heading names. -/
def atHeading (change : Entries → Option Entries) (path : List String) (root : Entries) :
    Option Entries :=
  below .way (· ≠ .braces) (fun _ entries => change entries) path .heading root

/-- Opens a table. It gets its place among the entries now, also if it stood on the way to another
one before. -/
def openTable? (path : List String) (root : Entries) : Option Entries :=
  match path.getLast? with
  | none => none
  | some name =>
    atHeading (fun entries =>
      match entries.lookup name with
      | none => some (put entries name (.table .heading [] []))
      | some (.table .way _ inner) =>
        some (put (without entries name) name (.table .heading [] inner))
      | some _ => none) path.dropLast root

/-- Opens one more table of a list of tables. -/
def openElement? (path : List String) (root : Entries) : Option Entries :=
  match path.getLast? with
  | none => none
  | some name =>
    atHeading (fun entries =>
      match entries.lookup name with
      | none => some (put entries name (.table .element [] []))
      | some (.table .element before inner) =>
        some (put entries name (.table .element (before ++ [.table .heading [] inner]) []))
      | some _ => none) path.dropLast root

/-- Gives a node to a dotted key of a table. A table with a heading is not reached by dots. -/
def give? (path : List String) (n : Node) (entries : Entries) : Option Entries :=
  match path.getLast? with
  | none => none
  | some name =>
    below .dots (fun origin => origin ≠ .braces && origin ≠ .heading)
      (fun origin entries =>
        if path.length ≠ 1 && origin ≠ .dots then none
        else
          match entries.lookup name with
          | none => some (put entries name n)
          | some _ => none)
      path.dropLast .heading entries

/-- Gives a node to a dotted key of the open table. -/
def assign? (opened path : List String) (n : Node) (root : Entries) : Option Entries :=
  atHeading (give? path n) opened root

/-! ### What a tree denotes -/

/-- A table whose first name is this one denotes a date or a time, which the text at the name
writes. -/
def momentMark : String := "$__toml_private_datetime"

mutual

/-- The value that a node denotes. There is none if a table is marked as a date or a time and does
not write one. -/
def Node.value? (readMoment : Text → Option Text) : Node → Option Value
  | .scalar v => some v
  | .moment t => some (.text (String.ofList t))
  | .list items => do return .list (← nodeValues? readMoment items)
  | .table .element before entries => do
    return .list ((← nodeValues? readMoment before) ++ [← tableValue? readMoment entries])
  | .table _ _ entries => tableValue? readMoment entries

/-- The values that nodes denote. -/
def nodeValues? (readMoment : Text → Option Text) : List Node → Option (List Value)
  | [] => some []
  | n :: rest => do return (← n.value? readMoment) :: (← nodeValues? readMoment rest)

/-- The value that a table denotes. -/
def tableValue? (readMoment : Text → Option Text) : List (String × Node) → Option Value
  | [] => some (.table [])
  | (name, n) :: rest =>
    if name = momentMark then
      match n with
      | .scalar (.text s) => (readMoment s.toList).map fun t => .text (String.ofList t)
      | _ => none
    else do
      let v ← n.value? readMoment
      return .table ((name, v) :: (← members? readMoment rest))

/-- The named values that entries of a table denote. -/
def members? (readMoment : Text → Option Text) :
    List (String × Node) → Option (List (String × Value))
  | [] => some []
  | (name, n) :: rest => do
    return (name, ← n.value? readMoment) :: (← members? readMoment rest)

end

end QuantityCalc.Settings.Toml
