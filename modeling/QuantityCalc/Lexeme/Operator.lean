/-!
# Operators

Every operator has a rank: an operator with a higher rank binds tighter. Binary operators of one
rank associate to the left. Unary operators have the highest rank and nest to the right. Parentheses
count as operators of the lowest rank while an expression is read.
-/

namespace QuantityCalc

/-- The operators of expressions. -/
inductive Operator where
  /-- An opening parenthesis. -/
  | parenOpen
  /-- A closing parenthesis. -/
  | parenClose
  /-- Equality. -/
  | equals
  /-- Inequality. -/
  | differs
  /-- Less than. -/
  | lessThan
  /-- Less than or equal. -/
  | lessOrEqual
  /-- Greater than. -/
  | greaterThan
  /-- Greater than or equal. -/
  | greaterOrEqual
  /-- Negation of a truth value. -/
  | not
  /-- Sum. -/
  | add
  /-- Difference. -/
  | sub
  /-- Product. -/
  | mul
  /-- Quotient. -/
  | div
  /-- Power. -/
  | pow
  /-- Root. -/
  | root
  /-- The sign that changes nothing. -/
  | plus
  /-- The sign that negates. -/
  | minus
deriving DecidableEq, Repr

namespace Operator

/-- All operators. -/
def all : List Operator :=
  [parenOpen, parenClose, equals, differs, lessThan, lessOrEqual, greaterThan, greaterOrEqual, not,
   add, sub, mul, div, pow, root, plus, minus]

/-- How tightly an operator binds. -/
def rank : Operator → Nat
  | parenOpen | parenClose => 0
  | equals | differs => 1
  | lessThan | lessOrEqual | greaterThan | greaterOrEqual => 2
  | add | sub => 3
  | mul | div => 4
  | pow | root => 5
  | not | plus | minus => 6

/-- Whether an operator has one operand. -/
def isUnary : Operator → Bool
  | not | plus | minus => true
  | _ => false

/-- Whether an operator compares its operands. -/
def isComparison (op : Operator) : Bool := op.rank = 1 || op.rank = 2

/-- The operator that a spelling denotes where no operand precedes it. -/
def asUnary? : Operator → Option Operator
  | add => some plus
  | sub => some minus
  | not => some not
  | _ => none

/-- The spelling of an operator. -/
def symbol : Operator → String
  | parenOpen => "("
  | parenClose => ")"
  | equals => "=="
  | differs => "!="
  | lessThan => "<"
  | lessOrEqual => "<="
  | greaterThan => ">"
  | greaterOrEqual => ">="
  | not => "!"
  | add | plus => "+"
  | sub | minus => "-"
  | mul => "*"
  | div => "/"
  | pow => "^"
  | root => "#"

/-- The operators that spellings denote where an operand precedes them; the exclamation mark stands
for negation everywhere. -/
def spelled : List Operator :=
  [equals, differs, lessThan, lessOrEqual, greaterThan, greaterOrEqual, not, add, sub, mul, div,
   pow, root]

/-- The operator with a spelling. -/
def ofSymbol? (symbol : String) : Option Operator := spelled.find? (·.symbol = symbol)

end Operator

end QuantityCalc
