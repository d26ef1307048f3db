import QuantityCalc.Settings.Value
import QuantityCalc.Text.Reader

/-!
# Keys

A key is the way to a value in a table of tables and lists: a name, and then further names behind
dots and places of lists in brackets, as in `engine.script_dirs[0]`. A place may be counted from the
end by a negative number. Names are the same in small and capital letters.

`Value.assign?` gives a value to a key. What is not a table or a list, but has to be one on the
way, is replaced by an empty one. A table that is given is merged into the table that is there.
-/

namespace QuantityCalc.Settings

/-- A step of the way to a value. -/
inductive Step where
  /-- To the value with a name in a table. -/
  | name (name : String)
  /-- To the value at a place of a list. -/
  | place (i : Int)
deriving DecidableEq, Repr

/-- The way to a value. -/
structure Key where
  /-- The name in the outermost table. -/
  first : String
  /-- The further steps. -/
  steps : List Step
deriving DecidableEq, Repr

/-! ### Reading keys -/

/-- A name with small letters for all letters. -/
def smallName (s : String) : String := s.map Char.toLower

namespace Key

open Reader

/-- Whether a character may stand in a name of a key with several steps. -/
def isNameChar (c : Char) : Bool := c.isAlphanum || c = '_' || c = '-' || c = ' '

/-- A name. -/
def name : Reader String := String.ofList <$> span1 isNameChar

/-- A place of a list in brackets. -/
def place : Reader Int := do
  word ['[']
  let _ ← span fun c => c = ' ' || c = '\t'
  let s ← (word ['-'] *> pure ['-']) <|> pure []
  let ds ← span1 Char.isDigit
  let _ ← span fun c => c = ' ' || c = '\t'
  word [']']
  match whole? (s ++ ds) with
  | some i => return i
  | none => failure

/-- A step behind the first name. -/
def step : Reader Step :=
  (fun n => .name (smallName n)) <$> (word ['.'] *> name) <|> .place <$> place

/-- The key that a text denotes. A text of another form is a single name. -/
def ofText (t : Text) : Key :=
  let key : Reader Key := do return ⟨smallName (← name), ← many step⟩
  (key.whole? t).getD ⟨smallName (String.ofList t), []⟩

end Key

/-! ### Tables and lists -/

namespace Value

/-- The named values of a table. Any other value has none. -/
def members : Value → List (String × Value)
  | table members => members
  | _ => []

/-- The items of a list. Any other value has none. -/
def items : Value → List Value
  | list items => items
  | _ => []

/-- The value with a name. -/
def get? (v : Value) (name : String) : Option Value := v.members.lookup name

/-- Members with another value for a name, or with one more member. -/
def replaceMember (name : String) (v : Value) : List (String × Value) → List (String × Value)
  | [] => [(name, v)]
  | (other, w) :: rest =>
    if other = name then (name, v) :: rest else (other, w) :: replaceMember name v rest

/-- The table with a value for a name. -/
def put (old : Value) (name : String) (v : Value) : Value :=
  table (replaceMember name v old.members)

mutual

/-- Gives a value to a name in a table. A table is merged into the value that is there, any other
value replaces it. -/
def merge (old : Value) (name : String) : Value → Value
  | table members =>
    let name := smallName name
    old.put name (mergeMembers ((old.get? name).getD (table [])) members)
  | v => old.put (smallName name) v

/-- Gives values to names in a table, one after the other. -/
def mergeMembers (old : Value) : List (String × Value) → Value
  | [] => old
  | (name, v) :: rest => mergeMembers (merge old name v) rest

end

/-- The index of a place in a list of so many items. There is none before the first item. -/
def index? (length : Nat) (i : Int) : Option Nat :=
  let i := if i < 0 then i + length else i
  if i < 0 then none else some i.toNat

/-- Items up to an index at least. -/
def extended (items : List Value) (i : Nat) : List Value :=
  items ++ List.replicate (i + 1 - items.length) nothing

/-- Gives a value to what is some steps away. -/
def assignBelow? (v : Value) : List Step → Value → Option Value
  | [], _ => some v
  | [.name name], old => some (old.merge name v)
  | .name name :: steps, old => do
    return old.put name (← assignBelow? v steps ((old.get? name).getD nothing))
  | .place i :: steps, old => do
    let i ← index? old.items.length i
    let items := extended old.items i
    return list (items.set i (← assignBelow? v steps (items[i]?.getD nothing)))

/-- Gives a value to a key. It is impossible only if a place is before the first item of a list. -/
def assign? (old : Value) (key : Key) (v : Value) : Option Value :=
  assignBelow? v (.name key.first :: key.steps) old

end Value

end QuantityCalc.Settings
