import QuantityCalc.Settings.Basic
import QuantityCalc.Settings.Key

/-!
# Assignments

A source of settings is a list of assignments: each gives a value to a key. Sources are laid over
one another by appending them.

`Settings.ofAssignments?` reads the settings from what is assigned in the end. Keys that no setting
has are ignored.
-/

namespace QuantityCalc.Settings

/-- An assignment of a value to a key. -/
structure Assignment where
  /-- The key. -/
  key : Key
  /-- The value. -/
  value : Value

/-- What is assigned in the end. -/
def Assignment.settle? (l : List Assignment) : Option Value :=
  l.foldlM (fun table a => table.assign? a.key a.value) (.table [])

/-- The values of the fields of a section. A section that is a list gives them in the order of the
fields. There are none if the section has a value of another kind. -/
def section? (root : Value) (name : String) (fields : List String) :
    Option (String → Option Value) :=
  match root.get? name with
  | none => some fun _ => none
  | some (.table members) => some fun field => members.lookup field
  | some (.list items) => some fun field => (fields.zip items).lookup field
  | some _ => none

/-- A setting as it is assigned or, if it is not, as it is by default. -/
def setting {α : Type} (value? : Option Value) (read : Value → Option α) (default : α) : Option α :=
  match value? with
  | some value => read value
  | none => some default

/-- The options of the session that are assigned. -/
def options? (root : Value) : Option Options := do
  let default : Options := {}
  let field ← section? root "engine" ["decimal_comma", "lenient_conversion", "max_call_depth",
    "max_nesting", "precision", "script_dirs"]
  return {
    decimalComma := ← setting (field "decimal_comma") Value.toFlag? default.decimalComma
    lenientConversion := ←
      setting (field "lenient_conversion") Value.toFlag? default.lenientConversion
    maxCallDepth := ← setting (field "max_call_depth") Value.toCount? default.maxCallDepth
    maxNesting := ← setting (field "max_nesting") Value.toCount? default.maxNesting
    precision? := ← setting (field "precision") (Value.optional? Value.toCount?) default.precision?
    scriptDirs := ← setting (field "script_dirs") Value.toTexts? default.scriptDirs }

/-- What is assigned for the log. -/
def log? (root : Value) : Option LogSettings := do
  let default : LogSettings := {}
  let field ← section? root "logging" ["level", "json", "file_enabled", "file_directory",
    "file_prefix", "file_rotation"]
  return {
    level := ← setting (field "level") Value.toText? default.level
    json := ← setting (field "json") Value.toFlag? default.json
    toFile := ← setting (field "file_enabled") Value.toFlag? default.toFile
    directory := ← setting (field "file_directory") Value.toText? default.directory
    fileStem := ← setting (field "file_prefix") Value.toText? default.fileStem
    rotation := ← setting (field "file_rotation") Value.toText? default.rotation }

/-- The settings that are assigned, unless a value cannot be read as its setting. -/
def ofAssignments? (l : List Assignment) : Option Settings := do
  let root ← Assignment.settle? l
  return ⟨← options? root, ← log? root⟩

end QuantityCalc.Settings
