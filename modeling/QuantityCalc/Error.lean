import QuantityCalc.Lexeme.Operator
import QuantityCalc.Quantity.Basic

/-!
# Errors

What can go wrong while a command line is read and run. An error names its cause. Its wording is
`Error.message`.
-/

namespace QuantityCalc

/-- What a name can be bound to. -/
inductive ItemKind where
  /-- A variable. -/
  | var
  /-- A function. -/
  | function
  /-- A unit. -/
  | unit
  /-- A system of units. -/
  | unitSystem
  /-- A namespace. -/
  | space
deriving DecidableEq, Repr

/-- The name of a kind. -/
def ItemKind.name : ItemKind → String
  | var => "Variable"
  | function => "Function"
  | unit => "Unit"
  | unitSystem => "UnitSystem"
  | space => "Namespace"

/-- How many arguments a function takes. -/
structure Arity where
  /-- The least number. -/
  least : Nat
  /-- The greatest number, if there is one. -/
  most? : Option Nat
deriving DecidableEq, Repr

namespace Arity

/-- Exactly so many arguments. -/
def exactly (n : Nat) : Arity := ⟨n, some n⟩

/-- Whether a function can be called with so many arguments. -/
def admits (a : Arity) (n : Nat) : Bool := a.least ≤ n && a.most?.all (n ≤ ·)

/-- The wording of an arity. -/
def describe (a : Arity) : String :=
  match a.most? with
  | some most => if most = a.least then toString most else s!"{a.least}..{most}"
  | none => s!"at least {a.least}"

end Arity

/-- How a text departs from the form of a command or an expression. -/
inductive Malformation where
  /-- A closing parenthesis without an opening one. -/
  | unbalancedClose
  /-- A closing parenthesis where an operand has to stand. -/
  | operandBeforeClose
  /-- An operand right behind an operand. -/
  | missingOperator
  /-- A negation right behind an operand. -/
  | negationAfterOperand
  /-- A binary operator where an operand has to stand. -/
  | missingLeft (op : Operator)
  /-- An expression ends where an operand or a closing parenthesis has to stand. -/
  | incomplete
  /-- A function without arguments in parentheses. -/
  | noArguments (function : String)
  /-- Something else behind the arguments of a call. -/
  | unclosedArguments
  /-- A target unit without its closing bracket. -/
  | unclosedTarget
  /-- Something behind a command. -/
  | unexpected (rest : String)
  /-- A declaration of a variable without a name or an equals sign. -/
  | varForm
  /-- A declaration of a unit without a symbol or an equals sign. -/
  | unitForm
  /-- A declaration of a namespace without a name. -/
  | namespaceName
  /-- A removal without a name. -/
  | removedName
  /-- A script command without a file name. -/
  | fileName
  /-- A declaration that does not begin with its keyword. -/
  | funcKeyword
  /-- A function without a name. -/
  | functionName
  /-- A function name without a parameter list. -/
  | parameterList
  /-- Something else where a parameter has to stand. -/
  | parameterName
  /-- A parameter unit without its closing bracket. -/
  | unclosedParameterUnit
  /-- Something else behind a parameter. -/
  | parameterEnd
  /-- Something else where the body of a function has to start. -/
  | bodyStart
deriving DecidableEq

/-- The wording of a malformation. -/
def Malformation.message : Malformation → String
  | unbalancedClose => "unbalanced ')'"
  | operandBeforeClose => "expected operand before ')'"
  | missingOperator => "missing operator between operands"
  | negationAfterOperand => "'!' cannot follow an operand"
  | missingLeft op => s!"operator '{op.symbol}' is missing its left operand"
  | incomplete => "incomplete expression"
  | noArguments function => s!"function '{function}' requires an argument list"
  | unclosedArguments => "expected ')' after arguments"
  | unclosedTarget => "missing ']' after target unit"
  | unexpected rest => s!"unexpected input '{rest}'"
  | varForm => "expected 'Var name = expression'"
  | unitForm => "expected 'Unit symbol = expression'"
  | namespaceName => "expected namespace name"
  | removedName => "expected a name to remove"
  | fileName => "expected a file name"
  | funcKeyword => "expected 'Func'"
  | functionName => "expected function name"
  | parameterList => "expected '(' after function name"
  | parameterName => "expected parameter name"
  | unclosedParameterUnit => "missing ']' after parameter unit"
  | parameterEnd => "expected ',' or ')'"
  | bodyStart => "expected '\x7b' before function body"

/-- Why a well-formed text has no value or no effect. -/
inductive EvaluationFault where
  /-- A return outside of every function. -/
  | returnOutside
  /-- A namespace or a system of units where a value has to stand. -/
  | notAValue (path : String)
  /-- An assignment to something that is no variable. -/
  | notAssignable (kind : ItemKind) (name : String)
  /-- The removal of the system of units in use. -/
  | activeSystem (name : String)
  /-- An argument with a dimension for a function of plain numbers. -/
  | dimensionedArgument (q : Quantity)
  /-- A fault that the source of a stream of tokens reports in its own words. -/
  | reported (text : String)

/-- The wording of a fault. -/
def EvaluationFault.message : EvaluationFault → String
  | returnOutside => "'Return' outside of a function"
  | notAValue path => s!"'{path}' is not a value"
  | notAssignable kind name => s!"cannot assign to {kind.name} '{name}'"
  | activeSystem name => s!"cannot remove the active unit system '{name}'"
  | dimensionedArgument q => s!"expected a dimensionless argument, got '{q.display}'"
  | reported text => text

/-- Why a declaration is refused. -/
inductive DeclarationFault where
  /-- The name is bound already. -/
  | alreadyDeclared (name : String)
  /-- A namespace outside of the running call. -/
  | outlivesCall (path : String)
  /-- The lines end within a function body. -/
  | unclosedBody (function : String)
  /-- Two parameters with one name. -/
  | duplicateParameter (parameter function : String)
deriving DecidableEq

/-- The wording of a fault. -/
def DeclarationFault.message : DeclarationFault → String
  | alreadyDeclared name => s!"'{name}' is already declared"
  | outlivesCall path => s!"namespace '{path}' would outlive the function declaring it"
  | unclosedBody function => s!"declaration of '{function}' is missing its closing '\x7d'"
  | duplicateParameter parameter function => s!"duplicate parameter '{parameter}' in '{function}'"

/-- Why a file cannot be read. -/
inductive FileFault where
  /-- No script of the name was found. -/
  | notFound
  /-- There is no such entry. -/
  | noEntry
  /-- The entry is a directory. -/
  | isDirectory
  /-- A directory was expected on the way. -/
  | notDirectory
  /-- Something else stands where a directory is to be made. -/
  | occupied
  /-- A name is too long. -/
  | nameTooLong
  /-- The path holds a null character. -/
  | nullInPath
  /-- The content is not UTF-8. -/
  | invalidText
  /-- The operating system reports something else. -/
  | other (text : String)
deriving DecidableEq

/-- The wording of a fault. -/
def FileFault.message : FileFault → String
  | notFound => "file not found"
  | noEntry => "No such file or directory (os error 2)"
  | isDirectory => "Is a directory (os error 21)"
  | notDirectory => "Not a directory (os error 20)"
  | occupied => "File exists (os error 17)"
  | nameTooLong => "File name too long (os error 36)"
  | nullInPath => "file name contained an unexpected NUL byte"
  | invalidText => "stream did not contain valid UTF-8"
  | other text => text

/-- A state of the reading or the evaluation that no text leads to. -/
inductive Breach where
  /-- There is no number behind a digit. -/
  | noNumber
  /-- There is no name behind the first character of one. -/
  | noName
  /-- An operator finds too few operands. -/
  | underflow
  /-- So many operands are left. -/
  | leftover (count : Nat)
  /-- A parenthesis stands in a postfix stream. -/
  | parenthesis (op : Operator)
  /-- A reader does not get on. -/
  | noProgress
deriving DecidableEq

/-- The wording of a breach. -/
def Breach.message : Breach → String
  | noNumber => "digit without number"
  | noName => "identifier start without identifier"
  | underflow => "operand stack underflow"
  | leftover count => s!"{count} operands left after evaluation"
  | parenthesis op => s!"operator '{op.symbol}' in postfix stream"
  | noProgress => "no progress"

/-- The errors of reading and running command lines. Positions count bytes. -/
inductive Error where
  /-- A character that starts no word. -/
  | unexpectedChar (position : Nat) (found : Char)
  /-- A number literal with a part out of range. -/
  | invalidNumber (position : Nat) (text : String)
  /-- A text of the wrong form. -/
  | malformed (position : Nat) (what : Malformation)
  /-- The text ends within an expression. The value is that of what was read so far. -/
  | unterminated (position : Nat) (soFar? : Option Quantity)
  /-- There is no expression. -/
  | emptyExpression
  /-- An error of units or of the arithmetic of quantities. -/
  | unit (error : UnitError)
  /-- A name that is not bound. -/
  | unknownName (path : String)
  /-- A call with the wrong number of arguments. -/
  | arity (function : String) (expected : Arity) (given : Nat)
  /-- An argument that is not convertible to the unit of its parameter. -/
  | parameterUnit (function parameter unit : String)
  /-- A call at the greatest depth. -/
  | callDepth (limit : Nat)
  /-- Parentheses or arguments nested too deeply. -/
  | nesting (limit : Nat)
  /-- A text without value or effect. -/
  | evaluation (fault : EvaluationFault)
  /-- A refused declaration. -/
  | declaration (fault : DeclarationFault)
  /-- A file that cannot be read. -/
  | file (path : String) (fault : FileFault)
  /-- A state that no text leads to. -/
  | internal (breach : Breach)

namespace Error

/-- The text of an error. -/
def message : Error → String
  | .unexpectedChar position found => s!"Unexpected character '{found}' at position {position}"
  | .invalidNumber position text => s!"Invalid number '{text}' at position {position}"
  | .malformed position what => s!"Syntax error at position {position}: {what.message}"
  | .unterminated position _ => s!"Unterminated expression at position {position}"
  | .emptyExpression => "Empty expression"
  | .unit error => error.message
  | .unknownName path => s!"Unknown identifier: {path}"
  | .arity function expected given =>
    s!"Function '{function}' expects {expected.describe} argument(s), got {given}"
  | .parameterUnit function parameter target =>
    s!"Parameter '{parameter}' of '{function}' must be convertible to '{target}'"
  | .callDepth limit => s!"Maximum call depth of {limit} exceeded"
  | .nesting limit => s!"Expression nested too deeply (max depth: {limit})"
  | .evaluation fault => s!"Evaluation error: {fault.message}"
  | .declaration fault => s!"Declaration error: {fault.message}"
  | .file path fault => s!"Cannot read '{path}': {fault.message}"
  | .internal breach => s!"Internal error: {breach.message}"

/-- The error of a part of a text, seen from the whole: its position is moved by the bytes before
the part. -/
def shift (n : Nat) : Error → Error
  | .unexpectedChar position found => .unexpectedChar (position + n) found
  | .invalidNumber position text => .invalidNumber (position + n) text
  | .malformed position what => .malformed (position + n) what
  | .unterminated position soFar? => .unterminated (position + n) soFar?
  | e => e

/-- The error as it is shown at the end of a command: with the value of what was read so far. -/
def describe (e : Error) : String :=
  match e with
  | .unterminated _ (some q) => s!"error: {e.message} (value so far: {q.display})"
  | _ => s!"error: {e.message}"

end Error

end QuantityCalc
