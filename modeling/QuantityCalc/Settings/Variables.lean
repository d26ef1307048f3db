import QuantityCalc.Settings.Assignment

/-!
# Settings from variables

A variable of the environment whose name starts with `PHYSCALC__` assigns to the key that the rest
of its name denotes, where two underscores stand between two names.
-/

namespace QuantityCalc.Settings

/-- The variables of an environment with their values. -/
abbrev Variables := List (String × String)

/-- What the name of a variable starts with, in any case of its letters, if it gives a setting. -/
def variableMark : Text := "physcalc__".toList

/-- The names of a variable's name, with single dots where it has double underscores. -/
def dotted : Text → Text
  | '_' :: '_' :: t => '.' :: dotted t
  | c :: t => c :: dotted t
  | [] => []

/-- The key with a list of texts for its value. -/
def listKey : Key := ⟨"engine", [.name "script_dirs"]⟩

/-- The value that a variable gives to a key: a truth value, a whole number, a float, for the key of
a list the texts between commas, and else a text. -/
def Value.ofVariable (key : Key) (s : String) : Value :=
  let t := s.toList
  match s.map Char.toLower with
  | "true" => .flag true
  | "false" => .flag false
  | _ =>
    match whole? t, Decimal.read? t with
    | some n, _ => .whole n
    | none, some x => .real x
    | none, none =>
      if key = listKey then .list ((t.splitOn ',').map fun item => .text (String.ofList item))
      else .text s

/-- The assignment that a variable makes, if its name asks for one. -/
def Assignment.ofVariable? (name value : String) : Option Assignment := do
  let rest ← Text.dropLead? variableMark (name.toList.map Char.toLower)
  let key := Key.ofText (dotted rest)
  return ⟨key, Value.ofVariable key value⟩

/-- The assignments that variables make. -/
def ofVariables (v : Variables) : List Assignment :=
  v.filterMap fun (name, value) => Assignment.ofVariable? name value

end QuantityCalc.Settings
