import QuantityCalc.Postfix

/-!
# From infix to postfix

An expression is turned into a postfix stream while it is read from left to right. Operators wait
on a stack until their right operand is complete: until an operator that binds no tighter follows, a
parenthesis is closed, or the expression ends. An opening parenthesis waits among them as a mark.
The last word that was read decides between the unary and the binary reading of an operator.
-/

namespace QuantityCalc

/-- The last word of an expression. -/
inductive LastWord where
  /-- There is none. -/
  | none
  /-- An operand or a closing parenthesis. -/
  | operand
  /-- An operator or an opening parenthesis. -/
  | operator
deriving DecidableEq, Repr

/-- What waits while an expression is read. -/
structure Yard where
  /-- The operators that wait, the last one first. -/
  waiting : List Operator := []
  /-- The last word. -/
  last : LastWord := .none
deriving DecidableEq

namespace Yard

/-- The number of open parentheses. -/
def depth (y : Yard) : Nat := y.waiting.count .parenOpen

/-- Whether a waiting operator is complete when another one follows. -/
def yields (waiting next : Operator) : Bool :=
  waiting ≠ .parenOpen &&
    (next.rank < waiting.rank || (waiting.rank = next.rank && !next.isUnary))

/-- An operand or an opening parenthesis may not follow an operand. -/
def checkOperand (y : Yard) : Except Malformation Unit :=
  if y.last = .operand then .error .missingOperator else .ok ()

/-- An operand is read. -/
def operand (y : Yard) : Yard := { y with last := .operand }

/-- An opening parenthesis is read. -/
def openGroup (y : Yard) : Yard := ⟨.parenOpen :: y.waiting, .operator⟩

/-- A closing parenthesis is read: the operators inside of it are complete. -/
def closeGroup (y : Yard) : Except Malformation (List Operator × Yard) :=
  if y.last = .operand then
    .ok (y.waiting.takeWhile (· ≠ .parenOpen),
      { y with waiting := (y.waiting.dropWhile (· ≠ .parenOpen)).tail })
  else .error .operandBeforeClose

/-- The reading of an operator at this place. -/
def reading (y : Yard) (op : Operator) : Except Malformation Operator :=
  if y.last = .operand then
    if op = .not then .error .negationAfterOperand else .ok op
  else
    match op.asUnary? with
    | some op => .ok op
    | none => .error (.missingLeft op)

/-- An operator is read: those that yield to it are complete. -/
def operator (y : Yard) (op : Operator) : Except Malformation (List Operator × Yard) := do
  let op ← y.reading op
  return (y.waiting.takeWhile (yields · op), ⟨op :: y.waiting.dropWhile (yields · op), .operator⟩)

/-- Whether an operand or a closing parenthesis is missing at the end. -/
def isIncomplete (y : Yard) : Bool := y.last = .operator || 0 < y.depth

/-- The operators that still wait at the end. -/
def drain (y : Yard) : List Operator := y.waiting.filter (· ≠ .parenOpen)

end Yard

end QuantityCalc
