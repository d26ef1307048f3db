import QuantityCalc.Interpreter
import QuantityCalc.Program.Arguments
import QuantityCalc.Settings.LogFile
import QuantityCalc.Settings.Sources

/-!
# The program

The program loads its settings, opens its log, runs script files and command lines in one session,
and reads further command lines from its input, if it is asked to or if there was nothing to run. An
error in a script file or in a given command line ends the program; an error in the input is
reported, and the next line follows.

`settings` finds the settings, `opening` is what a session does before the input is read,
`inputLine` is a line of the input, and `closing` is the end of the input. `run` puts them together
for a directory in memory and an input that is known as a whole.
-/

namespace QuantityCalc.Program

/-- The budget of nested activations. Calls are limited by the settings, so only scripts that read
one another can spend it. -/
def budget : Nat := 10000

/-- What the program calls itself. -/
def version : String := "physcalc 0.1.0"

/-- How the program is used. -/
def usage : String :=
  "Calculator for physical quantities with units\n\n" ++
  "Usage: physcalc [OPTIONS] [FILES]...\n\n" ++
  "  -e, --eval <COMMANDS>       runs a command line\n" ++
  "  -i, --interactive           reads command lines from the input in any case\n" ++
  "  -c, --config <FILE>         reads settings from a file\n" ++
  "      --max-call-depth <N>    limits the depth of calls\n" ++
  "      --max-nesting <N>       limits the depth of parentheses and argument lists\n" ++
  "      --lenient-conversion    labels impossible conversions\n" ++
  "  -p, --precision <N>         rounds to significant digits\n" ++
  "      --no-decimal-comma      lets commas only separate\n" ++
  "  -I, --include <DIR>         looks for scripts in a directory\n" ++
  "      --log-level <LEVEL>     sets the level of the log\n" ++
  "  -h, --help                  shows this text\n" ++
  "  -V, --version               shows the version"

/-- Why the program gives up. -/
inductive Failure where
  /-- The settings cannot be read. -/
  | unreadableSettings
  /-- A setting is out of bounds. -/
  | invalidSettings (f : Settings.Fault)
  /-- The log cannot have its file. -/
  | log (obstacle : LogObstacle)
  /-- An error in a script file. -/
  | file (path : String) (e : Error)
  /-- An error in a command line. -/
  | command (line : String) (e : Error)
  /-- A declaration of a function that is not closed. -/
  | unclosed (function : String)

/-- A text whose first line follows a mark and whose other lines are indented. -/
def indented (mark blanks text : String) : String :=
  mark ++ ("\n" ++ blanks).intercalate ((text.toList.splitOn '\n').map String.ofList)

/-- The number of a cause, on the right of five columns. -/
def causeMark (i : Nat) : String := String.ofList ((toString i).toList.leftpad 5 ' ') ++ ": "

/-- Causes below a heading, each the cause of the one before. If there are several, they are
numbered. -/
def caused (heading : String) (causes : List String) : String :=
  let items := match causes with
    | [cause] => [indented "    " "    " cause]
    | _ => causes.mapIdx fun i cause => indented (causeMark i) "       " cause
  heading ++ "\n\nCaused by:\n" ++ "\n".intercalate items

/-- A declaration that is not closed. -/
def unclosedMessage (function : String) : String := s!"declaration of '{function}' was never closed"

/-- The wording of a failure. -/
def Failure.message : Failure → String
  | unreadableSettings => "Error: Failed to load configuration"
  | invalidSettings f => s!"Error: Invalid configuration: {f.message}"
  | log obstacle => caused "Error: Failed to initialize logging" obstacle.messages
  | file path e => caused s!"Error: Failed to run {path}" [e.describe]
  | command line e => caused s!"Error: Failed to execute '{line}'" [e.describe]
  | unclosed function => "Error: " ++ unclosedMessage function

/-- The settings as arguments change them. -/
def Arguments.apply (a : Arguments) (s : Settings) : Settings where
  options :=
    { decimalComma := s.options.decimalComma && !a.noDecimalComma
      lenientConversion := s.options.lenientConversion || a.lenientConversion
      maxCallDepth := a.maxCallDepth?.getD s.options.maxCallDepth
      maxNesting := a.maxNesting?.getD s.options.maxNesting
      precision? := a.precision? <|> s.options.precision?
      scriptDirs := s.options.scriptDirs ++ a.directories }
  log := { s.log with level := a.level?.getD s.log.level }

/-- The settings of a run, or why there are none. -/
def settings (f : Files) (v : Settings.Variables) (a : Arguments) :
    Except Halt (Except Failure Settings) := do
  let some loaded ← Settings.load f v a.settings? | return .error .unreadableSettings
  let s := a.apply loaded
  match s.validate with
  | .error fault => return .error (.invalidSettings fault)
  | .ok _ => return .ok s

/-- Runs an action whose error makes the program give up. -/
def orFail {α : Type} (failure : Error → Failure) (a : Action α) : ExceptT Failure Run Unit := do
  match ← ExceptT.lift a.run with
  | .ok _ => return
  | .error e => throw (failure e)

/-- Runs the script files and the command lines that are given. No declaration may stay open. -/
def runGiven (a : Arguments) : ExceptT Failure Run Unit := do
  for path in a.files do
    orFail (.file path) (Session.executeScript budget path)
  for line in a.commands do
    orFail (.command line) (Session.execute budget line)
  match ← modifyGet Session.cancelDraft with
  | some function => throw (.unclosed function)
  | none => return

/-- What a session comes to before the input is read. -/
structure Opening where
  /-- The session. -/
  session : Session
  /-- Why the program gives up, if it does. -/
  failure? : Option Failure

/-- Runs a session up to where the input is read. -/
def opening (s : Settings) (f : Files) (a : Arguments) : Except Halt Opening := do
  match ← (runGiven a).run.run (.start s.options f) with
  | (.ok _, session) => return ⟨session, none⟩
  | (.error failure, session) => return ⟨session, some failure⟩

/-- Runs a line of the input. An error is told. -/
def inputLine (line : String) : Run (Option String) := do
  match ← (Session.execute budget line).run with
  | .ok _ => return none
  | .error e => return some e.describe

/-- Ends the input. A declaration that is open is told. -/
def closing : Run (Option String) := do
  return (← modifyGet Session.cancelDraft).map fun function => "error: " ++ unclosedMessage function

/-- Runs all lines of the input and tells the errors. -/
def input (lines : List String) : Run (List String) := do
  let reports ← lines.mapM inputLine
  return (reports ++ [← closing]).filterMap id

/-- What a run of the program leaves. -/
structure Outcome where
  /-- The exit status. -/
  status : Nat
  /-- The lines of the output. -/
  output : List String
  /-- The reports of errors. -/
  reports : List String
deriving DecidableEq

/-- The outcome if the arguments lead to no run. -/
def Stop.outcome : Stop → Outcome
  | version => ⟨0, [Program.version], []⟩
  | help => ⟨0, [usage], []⟩
  | misuse m => ⟨2, [], ["error: " ++ m.message]⟩

/-- The outcome of a run that ends in a failure. -/
def Failure.outcome (output : List String) (failure : Failure) : Outcome :=
  ⟨1, output, [failure.message]⟩

/-- The outcome of a session whose input is known. -/
def converse (a : Arguments) (start : Opening) (text : String) : Except Halt Outcome := do
  match start.failure? with
  | some failure => return failure.outcome start.session.output.toList
  | none =>
    if a.wantsInput then
      let (reports, s) ← (input ((Text.lines text.toList).map String.ofList)).run start.session
      return ⟨0, s.output.toList, reports⟩
    else return ⟨0, start.session.output.toList, []⟩

/-- The outcome of a run in a directory at a moment, with the given arguments and input. The session
finds the files as the log leaves them. -/
def run (t : FileTree) (now : Moment) (v : Settings.Variables) (arguments : List String)
    (text : String) : Except Halt Outcome := do
  match Arguments.ofList arguments with
  | .error stop => return stop.outcome
  | .ok a =>
    match ← settings t.files v a with
    | .error failure => return failure.outcome []
    | .ok s =>
      match (s.log.openFile FileTree.disk now).run t with
      | (some obstacle, _) => return (Failure.log obstacle).outcome []
      | (none, t) => converse a (← opening s t.files a) text

end QuantityCalc.Program
