import QuantityCalc.Error
import QuantityCalc.Quantity.Basic

/-!
# Postfix streams

A stream of operands and operators is evaluated on a stack of operands: an operator takes its
operands from the top of the stack and leaves its result there. A stream may also carry an error,
which ends the evaluation.
-/

namespace QuantityCalc

/-- An item of a postfix stream. -/
inductive Token where
  /-- An operand. -/
  | operand (q : Quantity)
  /-- An operator, which takes the operands before it. -/
  | operator (op : Operator)

namespace Operator

/-- The kind of operation that a power or a root with an exponent below one stands for: the other
one, with the reciprocal exponent. -/
def inverse : Operator → Operator
  | pow => root
  | _ => pow

/-- Whether a number can be the exponent of an integer power: it is whole, and it fits a signed byte
with its negative. -/
def isIntegral (x : Float) : Bool := x.abs ≤ 127 && x.toInt8.toFloat == x

/-- A power or a root. An exponent with a magnitude below one exchanges the two. A plain base takes
any exponent. For other bases the fraction of the exponent is dropped. -/
def power (op : Operator) (base exponent : Quantity) : Except UnitError Quantity :=
  if !exponent.isDimensionless then .error (.dimensionedExponent exponent.unit.symbol)
  else
    let x := exponent.coherentValue
    if x == 0 then
      if op = root then .error (.domain .zerothRoot) else .ok (.plain 1)
    else
      let (op, x) := if 1 ≤ x.abs then (op, x) else (op.inverse, 1 / x)
      if base.isDimensionless && !isIntegral x then
        base.realPower (if op = pow then x else 1 / x)
      else if 127 < x.abs then .error .overflow
      else if op = pow then base.pow x.toInt8
      else base.root x.toInt8

/-- The truth value of a comparison. -/
def comparison (p q : Quantity) (holds : Ordering → Bool) : Except UnitError Quantity := do
  return .ofBool (holds (← p.compare q))

/-- The result of an operator with two operands. -/
def binary (op : Operator) (p q : Quantity) : Except Error Quantity :=
  match op with
  | add => (p.add q).mapError .unit
  | sub => (p.sub q).mapError .unit
  | mul => (p.mul q).mapError .unit
  | div => (p.div q).mapError .unit
  | pow | root => (power op p q).mapError .unit
  | equals => (comparison p q (· = .eq)).mapError .unit
  | differs => (comparison p q (· ≠ .eq)).mapError .unit
  | lessThan => (comparison p q (· = .lt)).mapError .unit
  | lessOrEqual => (comparison p q (· ≠ .gt)).mapError .unit
  | greaterThan => (comparison p q (· = .gt)).mapError .unit
  | greaterOrEqual => (comparison p q (· ≠ .lt)).mapError .unit
  | parenOpen | parenClose | not | plus | minus => .error (.internal (.parenthesis op))

/-- The result of an operator with one operand. -/
def unary (op : Operator) (q : Quantity) : Quantity :=
  match op with
  | plus => q
  | minus => q.neg
  | _ => .ofBool !q.isTruthy

end Operator

namespace Postfix

/-- An item of a stream that may fail. -/
abbrev Item := Except Error Token

/-- The operands of an evaluation, the topmost first. -/
abbrev Stack := List Quantity

/-- The error of an operator that finds too few operands. The stream has ended early, and the rest
of it may say where. -/
def underflow (stack : Stack) : List Item → Error
  | [] => .internal .underflow
  | .error (.unterminated position _) :: _ => .unterminated position stack.head?
  | _ :: items => underflow stack items

/-- Runs a stream on a stack. -/
def run : List Item → Stack → Except Error Stack
  | [], stack => .ok stack
  | .error (.unterminated position _) :: _, stack => .error (.unterminated position stack.head?)
  | .error e :: _, _ => .error e
  | .ok (.operand q) :: items, stack => run items (q :: stack)
  | .ok (.operator op) :: items, stack =>
    if op.isUnary then
      match stack with
      | q :: stack => run items (op.unary q :: stack)
      | _ => .error (underflow stack items)
    else
      match stack with
      | q :: p :: stack =>
        match op.binary p q with
        | .ok r => run items (r :: stack)
        | .error e => .error e
      | _ => .error (underflow stack items)

/-- The value that a finished evaluation leaves, none for an empty stream. -/
def value? : Stack → Except Error (Option Quantity)
  | [] => .ok none
  | [q] => .ok (some q)
  | stack => .error (.internal (.leftover stack.length))

/-- The value of a stream, none if it is empty. -/
def evaluate (items : List Item) : Except Error (Option Quantity) := do
  value? (← run items [])

end Postfix

end QuantityCalc
