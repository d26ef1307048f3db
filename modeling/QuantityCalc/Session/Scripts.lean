import QuantityCalc.Script.Path
import QuantityCalc.Session.Basic

/-!
# Scripts

A script is a file of command lines. It is looked for in the working directory and then in the
script directories, under its name as given and under its name with the extension of scripts.
-/

namespace QuantityCalc

/-- A list of command lines is run to its end or to its first return, which has a value. -/
abbrev Runner := List String → Action (Option Quantity)

namespace Session

/-- The extension of script files. -/
def scriptExtension : String := "cal"

/-- The paths at which a script is looked for, in their order. -/
def candidates (s : Session) (name : String) : List String :=
  let given := name.toList
  let spellings := [given, Path.withExtension scriptExtension.toList given]
  ("" :: s.options.scriptDirs).flatMap fun directory =>
    spellings.map fun path => String.ofList (Path.join directory.toList path)

/-- The first of some paths at which a regular file stands. -/
def firstFile? : List String → Run (Option String)
  | [] => return none
  | path :: paths => do
    if (← Run.look path).isFile then return some path else firstFile? paths

/-- The path of a script. -/
def findScript (name : String) : Run (Option String) := do
  firstFile? ((← get).candidates name)

/-- The lines of a file. -/
def readLines (path : String) : Action (List String) := do
  match (← Run.look path).text with
  | .ok text => return (Text.lines text.toList).map String.ofList
  | .error fault => throw (.file path fault)

/-- Runs a script in the current scope. -/
def runScript (run : Runner) (path : String) : Action (Option Quantity) := do
  run (← readLines path)

end Session

end QuantityCalc
