import QuantityCalc.Settings.Value

/-!
# Arguments of the program

An argument is the name of a script file or it gives an option. An option has a long name behind
two hyphens, and some have a letter behind one. Options that need no value are switches, whose
letters can be put together. A value follows its option, as the next argument or behind an equals
sign; behind a letter the sign may be left out. Behind an argument of two hyphens there are only
file names.
-/

namespace QuantityCalc.Program

/-- What the user asks for when the program is started. -/
structure Arguments where
  /-- The script files to run. -/
  files : List String := []
  /-- The command lines to run after them. -/
  commands : List String := []
  /-- Whether command lines are read from the input in any case. -/
  interactive : Bool := false
  /-- The file of settings. -/
  settings? : Option String := none
  /-- The greatest depth of calls. -/
  maxCallDepth? : Option Nat := none
  /-- The greatest depth of parentheses and argument lists. -/
  maxNesting? : Option Nat := none
  /-- Whether an impossible conversion gives a quantity a label. -/
  lenientConversion : Bool := false
  /-- The number of significant digits. -/
  precision? : Option Nat := none
  /-- Whether a comma only separates. -/
  noDecimalComma : Bool := false
  /-- Further directories of scripts. -/
  directories : List String := []
  /-- The level of the log. -/
  level? : Option String := none
deriving DecidableEq

namespace Arguments

/-- Whether command lines are read from the input. -/
def wantsInput (a : Arguments) : Bool := a.interactive || (a.files.isEmpty && a.commands.isEmpty)

end Arguments

/-- The options that are switched on. -/
inductive Switch where
  /-- Reads command lines from the input. -/
  | interactive
  /-- Labels impossible conversions. -/
  | lenientConversion
  /-- Lets commas only separate. -/
  | noDecimalComma
  /-- Tells the version of the program. -/
  | version
  /-- Tells how the program is used. -/
  | help
deriving DecidableEq, Repr

/-- The options with a value. -/
inductive Setting where
  /-- A command line. -/
  | eval
  /-- The file of settings. -/
  | config
  /-- The greatest depth of calls. -/
  | maxCallDepth
  /-- The greatest depth of parentheses and argument lists. -/
  | maxNesting
  /-- The number of significant digits. -/
  | precision
  /-- A directory of scripts. -/
  | directory
  /-- The level of the log. -/
  | logLevel
deriving DecidableEq, Repr

/-- The switches and settings by their long names. -/
def longNames : List (String × (Switch ⊕ Setting)) :=
  [("eval", .inr .eval), ("interactive", .inl .interactive), ("config", .inr .config),
   ("max-call-depth", .inr .maxCallDepth), ("max-nesting", .inr .maxNesting),
   ("lenient-conversion", .inl .lenientConversion), ("precision", .inr .precision),
   ("no-decimal-comma", .inl .noDecimalComma), ("include", .inr .directory),
   ("log-level", .inr .logLevel), ("help", .inl .help), ("version", .inl .version)]

/-- The switches and settings by their letters. -/
def letters : List (Char × (Switch ⊕ Setting)) :=
  [('e', .inr .eval), ('i', .inl .interactive), ('c', .inr .config), ('p', .inr .precision),
   ('I', .inr .directory), ('h', .inl .help), ('V', .inl .version)]

/-- The long name of a switch or a setting. -/
def longName (o : Switch ⊕ Setting) : String :=
  "--" ++ ((longNames.find? (·.2 = o)).map (·.1)).getD ""

/-- A wrong use of the program. -/
inductive Misuse where
  /-- An option that there is not. -/
  | unknown (argument : String)
  /-- A setting without its value. -/
  | missingValue (s : Setting)
  /-- A switch with a value. -/
  | needlessValue (s : Switch)
  /-- A second time of what can be given once. -/
  | repeated (o : Switch ⊕ Setting)
  /-- A value that a setting cannot have. -/
  | badValue (s : Setting) (given : String)
  /-- A script file without a name. -/
  | namelessFile
deriving DecidableEq

/-- The wording of a misuse. -/
def Misuse.message : Misuse → String
  | unknown argument => s!"unexpected argument '{argument}'"
  | missingValue s => "a value is required for " ++ longName (.inr s)
  | needlessValue s => "no value is expected for " ++ longName (.inl s)
  | repeated o => longName o ++ " cannot be used multiple times"
  | badValue s given => s!"invalid value '{given}' for " ++ longName (.inr s)
  | namelessFile => "the name of a file is empty"

/-- Why the arguments lead to no run. -/
inductive Stop where
  /-- The version is asked for. -/
  | version
  /-- Help is asked for. -/
  | help
  /-- The program is not used as it should be. -/
  | misuse (m : Misuse)
deriving DecidableEq

namespace Arguments

/-- The arguments with a switch put on. -/
def put (a : Arguments) (s : Switch) : Except Stop Arguments :=
  let once (given : Bool) (b : Arguments) : Except Stop Arguments :=
    if given then .error (.misuse (.repeated (.inl s))) else .ok b
  match s with
  | .interactive => once a.interactive { a with interactive := true }
  | .lenientConversion => once a.lenientConversion { a with lenientConversion := true }
  | .noDecimalComma => once a.noDecimalComma { a with noDecimalComma := true }
  | .version => .error .version
  | .help => .error .help

/-- The arguments with a value for a setting. Command lines and directories add up. -/
def give (a : Arguments) (s : Setting) (value : String) : Except Stop Arguments :=
  let bad : Except Stop Arguments := .error (.misuse (.badValue s value))
  let once {α : Type} (before? : Option α) (value? : Option α) (f : α → Arguments) :
      Except Stop Arguments :=
    match value? with
    | none => bad
    | some value => if before?.isSome then .error (.misuse (.repeated (.inr s))) else .ok (f value)
  let path? := if value.isEmpty then none else some value
  match s with
  | .eval => .ok { a with commands := a.commands ++ [value] }
  | .directory =>
    if value.isEmpty then bad else .ok { a with directories := a.directories ++ [value] }
  | .config => once a.settings? path? fun path => { a with settings? := path }
  | .maxCallDepth =>
    once a.maxCallDepth? (Settings.count? value.toList) fun n => { a with maxCallDepth? := n }
  | .maxNesting =>
    once a.maxNesting? (Settings.count? value.toList) fun n => { a with maxNesting? := n }
  | .precision =>
    once a.precision? (Settings.count? value.toList) fun n => { a with precision? := n }
  | .logLevel => once a.level? (some value) fun level => { a with level? := level }

/-- The arguments with one more script file. -/
def addFile (a : Arguments) (file : String) : Except Stop Arguments :=
  if file.isEmpty then .error (.misuse .namelessFile) else .ok { a with files := a.files ++ [file] }

/-- Reads the letters behind a hyphen. The setting that still needs its value is told. -/
def addLetters (a : Arguments) : Text → Except Stop (Arguments × Option Setting)
  | [] => .ok (a, none)
  | c :: t =>
    match letters.lookup c with
    | none => .error (.misuse (.unknown (String.ofList ['-', c])))
    | some (.inl s) => do (← a.put s).addLetters t
    | some (.inr s) =>
      match t with
      | [] => .ok (a, some s)
      | '=' :: value => do return (← a.give s (String.ofList value), none)
      | value => do return (← a.give s (String.ofList value), none)

/-- Reads a long name behind two hyphens. The setting that still needs its value is told. -/
def addLong (a : Arguments) (t : Text) : Except Stop (Arguments × Option Setting) :=
  let (name, value?) := match Text.cut? '=' t with
    | some (name, value) => (String.ofList name, some (String.ofList value))
    | none => (String.ofList t, none)
  match longNames.lookup name, value? with
  | none, _ => .error (.misuse (.unknown ("--" ++ name)))
  | some (.inl s), none => do return (← a.put s, none)
  | some (.inl s), some _ => .error (.misuse (.needlessValue s))
  | some (.inr s), none => .ok (a, some s)
  | some (.inr s), some value => do return (← a.give s value, none)

/-- Reads an argument. The setting that still needs its value is told. -/
def add (a : Arguments) (argument : String) : Except Stop (Arguments × Option Setting) :=
  match argument.toList with
  | '-' :: '-' :: name => a.addLong name
  | '-' :: c :: t => a.addLetters (c :: t)
  | _ => do return (← a.addFile argument, none)

/-- Whether an argument looks like an option. A single hyphen does not. -/
def isOption (argument : String) : Bool := argument ≠ "-" && argument.toList.head? = some '-'

/-- Reads the arguments behind those that were read. -/
def readOn (a : Arguments) : List String → Except Stop Arguments
  | [] => .ok a
  | argument :: rest =>
    if argument = "--" then rest.foldlM addFile a
    else
      match a.add argument with
      | .error stop => .error stop
      | .ok (a, none) => a.readOn rest
      | .ok (a, some s) =>
        match rest with
        | [] => .error (.misuse (.missingValue s))
        | value :: rest =>
          if isOption value then .error (.misuse (.missingValue s))
          else
            match a.give s value with
            | .error stop => .error stop
            | .ok a => a.readOn rest

/-- The arguments of a call of the program. -/
def ofList (l : List String) : Except Stop Arguments := readOn {} l

end Arguments

end QuantityCalc.Program
