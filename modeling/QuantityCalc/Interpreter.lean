import QuantityCalc.Command.Basic

/-!
# The interpreter

Bodies of functions and scripts run as activations inside of one another. A script may run itself
without end, so a run has a budget: the number of activations that may be nested. `activation` is
the runner with a given budget. All entry points take the budget as their first argument; a run that
does not exhaust it has the same outcome with every larger one.
-/

namespace QuantityCalc

/-- Runs lines with a budget of nested activations. -/
def activation : (budget : Nat) → Runner
  | 0, _ => ExceptT.lift (throw .exhausted)
  | budget + 1, ls => Command.lines (activation budget) ls

namespace Session

/-- Runs a command line. -/
def execute (budget : Nat) (line : String) : Action Flow := Command.line (activation budget) line

/-- Runs command lines up to the first return. -/
def executeLines (budget : Nat) (ls : List String) : Action (Option Quantity) :=
  activation (budget + 1) ls

/-- Runs the script at a path. -/
def executeScript (budget : Nat) (path : String) : Action (Option Quantity) :=
  runScript (activation budget) path

/-- Reads an expression at the front of a text. -/
def readExpression (budget : Nat) (t : Text) : Run (Parsed Quantity) := do
  Expression.value (← Expression.topLevel (activation budget)) t

/-- Reads an expression with its target unit at the front of a text. -/
def readConverted (budget : Nat) (t : Text) : Run (Parsed Quantity) := do
  Expression.converted (← Expression.topLevel (activation budget)) t

/-- Reads a list of expressions at the front of a text. -/
def readList (budget : Nat) (t : Text) : Run (Parsed (List Quantity)) := do
  Expression.list (← Expression.topLevel (activation budget)) t

/-- Reads an expression at the front of a text without evaluating its postfix stream, up to the
first error. -/
def readTokens (budget : Nat) (t : Text) : Run (List Postfix.Item × Cursor) := do
  let context ← Expression.topLevel (activation budget)
  let fed ← Expression.feed context (fun items before => .ok (before ++ items)) [] {} (.start t)
  return (fed.state.toOption.getD [], fed.place)

/-- Calls the function that a name stands for. -/
def callFunction (budget : Nat) (home : Home) (name : String) (args : List Quantity) :
    Action Quantity :=
  call (activation budget) home name args

/-- Calls the script of a name as a function. -/
def callScript (budget : Nat) (name : String) : Action (Option Quantity) :=
  callFile (activation budget) name

end Session

end QuantityCalc
