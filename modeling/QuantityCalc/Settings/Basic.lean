import QuantityCalc.Session.Basic

/-!
# Settings

The settings of the program: the options of its session and what is wanted of its log. Some values
are out of bounds; `Settings.faults` lists them, and settings without faults are fit for use.
-/

namespace QuantityCalc

/-- What is wanted of the log. -/
structure LogSettings where
  /-- The least level of an entry. -/
  level : String := "warn"
  /-- Whether entries are written as JSON. -/
  json : Bool := false
  /-- Whether entries also go to a file. -/
  toFile : Bool := false
  /-- The directory of the files. -/
  directory : String := "logs"
  /-- What the names of the files start with. -/
  fileStem : String := "physcalc"
  /-- How often a new file is begun. -/
  rotation : String := "daily"
deriving DecidableEq

/-- The settings of the program. -/
structure Settings where
  /-- The options of the session. -/
  options : Options := {}
  /-- What is wanted of the log. -/
  log : LogSettings := {}
deriving DecidableEq

namespace Settings

/-- The greatest depth of calls, and of parentheses and argument lists, that can be asked for. -/
def depthLimit : Nat := 500

/-- The greatest number of significant digits that can be asked for. More digits add nothing to a
float. -/
def digitLimit : Nat := 17

/-- The levels of the log. -/
def levels : List String := ["trace", "debug", "info", "warn", "error", "off"]

/-- The ways to begin new log files. -/
def rotations : List String := ["daily", "hourly", "minutely", "never"]

/-- A setting that is out of bounds. -/
inductive Fault where
  /-- The depth of calls. -/
  | callDepth (given : Nat)
  /-- The depth of parentheses and argument lists. -/
  | nesting (given : Nat)
  /-- The number of significant digits. -/
  | digits (given : Nat)
  /-- The level of the log. -/
  | level (given : String)
  /-- The rotation of log files. -/
  | rotation (given : String)
deriving DecidableEq

/-- The wording of a fault. -/
def Fault.message : Fault → String
  | callDepth given => s!"engine.max_call_depth must be between 1 and {depthLimit}, got {given}"
  | nesting given => s!"engine.max_nesting must be between 1 and {depthLimit}, got {given}"
  | digits given => s!"engine.precision must be between 1 and {digitLimit}, got {given}"
  | level given => "logging.level must be one of " ++ ", ".intercalate levels ++ s!", got '{given}'"
  | rotation given =>
    "logging.file_rotation must be one of " ++ ", ".intercalate rotations ++ s!", got '{given}'"

/-- Whether a number is not among `1, …, limit`. -/
def isBeyond (limit n : Nat) : Bool := n = 0 || limit < n

/-- The faults of settings. A level counts in any case of its letters. -/
def faults (s : Settings) : List Fault :=
  let o := s.options
  (if isBeyond depthLimit o.maxCallDepth then [.callDepth o.maxCallDepth] else []) ++
  (if isBeyond depthLimit o.maxNesting then [.nesting o.maxNesting] else []) ++
  ((o.precision?.filter (isBeyond digitLimit)).map Fault.digits).toList ++
  (if s.log.level.map Char.toLower ∈ levels then [] else [.level s.log.level]) ++
  (if s.log.rotation ∈ rotations then [] else [.rotation s.log.rotation])

/-- Refuses settings that have a fault, and tells the first one. -/
def validate (s : Settings) : Except Fault Unit :=
  match s.faults with
  | [] => .ok ()
  | f :: _ => .error f

end Settings

end QuantityCalc
