import QuantityCalc.Command.Keyword
import QuantityCalc.Expression.Basic
import QuantityCalc.Session.Bindings

/-!
# Running commands

A command line holds commands with semicolons between them. `Command.line` runs them up to the first
error or return, and `Command.lines` runs the lines of a body or a script.

The text behind the closing brace of a function is a line of its own.
-/

namespace QuantityCalc

/-- How a command line ends. -/
inductive Flow where
  /-- The next line follows. -/
  | proceed
  /-- The function or the script returns a value. -/
  | returned (q : Quantity)

/-- How a command ends. -/
inductive Command.Outcome where
  /-- The text that is left follows the command. -/
  | done (flow : Flow) (rest : Text)
  /-- The text that is left is a line of its own. -/
  | lineOfItsOwn (rest : Text)

namespace Command

/-- The result of reading a part of a text, with the text behind it. -/
def reading {α : Type} (read : ReadingContext → Text → Run (Parsed α)) (run : Runner) (t : Text) :
    Action (α × Text) := do
  let parsed ← read (← Expression.topLevel run) t
  return (← liftExcept parsed.value, parsed.rest)

/-- Goes on after a command. -/
def proceed (rest : Text) : Action Outcome := return .done .proceed rest

/-- The malformation of a command that lacks what has to follow its keyword. -/
def malformed {α : Type} (what : Malformation) : Action α := throw (.malformed 0 what)

/-- Reads a line of a declaration. A finished function is bound in the current scope. -/
def declaration (t : Text) : Action Outcome := do
  let parsed ← modifyGet (Session.continueDeclaration · t)
  match ← liftExcept parsed.value with
  | some f =>
    Session.registerFunction f
    return .lineOfItsOwn parsed.rest
  | none => proceed []

/-- The line of the list of items for one item. -/
def listed (s : Session) (name : String) : Item → String
  | .var value => name ++ " = " ++ s.format value
  | .function f _ => { f with name := name }.heading
  | .unit _ =>
    match s.system.lookup? name with
    | some unit => name ++ ": unit of " ++ unit.dimension.render
    | none => name ++ ": unit"
  | .unitSystem => name ++ ": unit system"
  | .space scope => name ++ ": namespace " ++ s.scopeName scope

/-- Runs the command of a keyword. The text `t` starts with the keyword, and `args` follows it. -/
def run (runner : Runner) (t args : Text) : Keyword → Action Outcome
  | .print => do
    let (values, rest) ← reading Expression.list runner args
    modify fun s => s.write (", ".intercalate (values.map s.format))
    proceed rest
  | .var => do
    let some (path, expression) := Name.assignment? args | malformed .varForm
    let (value, rest) ← reading Expression.converted runner expression
    Session.define path value
    proceed rest
  | .unit => do
    let some (symbol, expression) := Name.assignment? args | malformed .unitForm
    let (value, rest) ← reading Expression.converted runner expression
    Session.declareUnit symbol value
    proceed rest
  | .func => declaration t
  | .returning => do
    if (← get).depth = 0 then throw (.evaluation .returnOutside)
    let (value, rest) ← reading Expression.converted runner args
    return .done (.returned value) rest
  | .space => do
    let some (path, rest) := Name.path? args | malformed .namespaceName
    let _ ← Session.declareNamespace path
    proceed rest
  | .remove => do
    let some (path, rest) := Name.path? args | malformed .removedName
    let _ ← Session.remove path
    proceed rest
  | .read => do
    let name := String.ofList (Text.trim (args.takeWhile (· ≠ ';')))
    if name.isEmpty then malformed .fileName
    let some path ← Session.findScript name | throw (.file name .notFound)
    let rest := args.dropWhile (· ≠ ';')
    match ← Session.runScript runner path with
    | some value => return .done (.returned value) rest
    | none => proceed rest
  | .list => do
    modify fun s => s.visibleItems.foldl (fun s' (name, item) => s'.write (listed s name item)) s
    proceed args

/-- Runs one command at the front of a text. -/
def one (runner : Runner) (t : Text) : Action Outcome := do
  if (← get).isDeclaring then declaration t
  else
    let t := Text.trimStart t
    if isOver t then proceed []
    else
      match Keyword.scan? t, Name.assignment? t with
      | some (k, args), _ => run runner t args k
      | none, some (path, expression) => do
        let (value, rest) ← reading Expression.converted runner expression
        Session.assign path value
        proceed rest
      | none, none => do
        let (value, rest) ← reading Expression.converted runner t
        modify fun s => s.write (s.format value)
        proceed rest

/-- Runs the commands of a text that ends a line of `size` bytes. -/
def lineFrom (runner : Runner) (size : Nat) (t : Text) : Action Flow := do
  match ← one runner t with
  | .done (.returned q) _ => return .returned q
  | .lineOfItsOwn rest =>
    if rest.length < t.length then lineFrom runner (Text.bytes rest) rest
    else throw (.internal .noProgress)
  | .done .proceed rest =>
    let rest := Text.trimStart rest
    if isOver rest then return .proceed
    else
      match rest with
      | ';' :: next =>
        if next.length < t.length then lineFrom runner size next
        else throw (.internal .noProgress)
      | _ => throw (.malformed (size - Text.bytes rest) (.unexpected (String.ofList rest)))
termination_by t.length

/-- Runs a command line. -/
def line (runner : Runner) (l : String) : Action Flow :=
  lineFrom runner (Text.bytes l.toList) l.toList

/-- Runs lines up to the first return. At the end, in whatever way, no declaration is left open, and
a declaration that the lines do not close is an error. -/
def lines (runner : Runner) : List String → Action (Option Quantity)
  | [] => do
    match ← modifyGet Session.cancelDraft with
    | some name => throw (.declaration (.unclosedBody name))
    | none => return none
  | l :: ls => do
    match ← ExceptT.lift (line runner l).run with
    | .ok .proceed => lines runner ls
    | .ok (.returned q) =>
      let _ ← modifyGet Session.cancelDraft
      return some q
    | .error e =>
      let _ ← modifyGet Session.cancelDraft
      throw e

end Command

end QuantityCalc
