import QuantityCalc.Error
import QuantityCalc.Quantity.Basic

/-!
# Built-in functions

Some functions keep the unit of their argument, some are functions of plain numbers, and two choose
among any number of quantities. Names that a session binds hide them.
-/

namespace QuantityCalc

/-- The built-in functions. -/
inductive Builtin where
  | abs
  | acos
  | asin
  | atan
  | ceil
  | cos
  | exp
  | floor
  | ln
  | log10
  | max
  | min
  | round
  | sin
  | sqrt
  | tan
deriving DecidableEq, Repr

namespace Builtin

/-- All built-in functions, in the order of their names. -/
def all : List Builtin :=
  [abs, acos, asin, atan, ceil, cos, exp, floor, ln, log10, max, min, round, sin, sqrt, tan]

/-- The name of a function. -/
def name : Builtin → String
  | abs => "abs"
  | acos => "acos"
  | asin => "asin"
  | atan => "atan"
  | ceil => "ceil"
  | cos => "cos"
  | exp => "exp"
  | floor => "floor"
  | ln => "ln"
  | log10 => "log10"
  | max => "max"
  | min => "min"
  | round => "round"
  | sin => "sin"
  | sqrt => "sqrt"
  | tan => "tan"

/-- The function with a name. -/
def ofName? (name : String) : Option Builtin := all.find? (·.name = name)

/-- How many arguments a function takes. -/
def arity : Builtin → Arity
  | max | min => ⟨1, none⟩
  | _ => .exactly 1

/-- The first quantity that no later one surpasses, in the sense of the given order. -/
def extreme (beats : Ordering) : Quantity → List Quantity → Except Error Quantity
  | best, [] => .ok best
  | best, q :: qs => do
    if (← (q.compare best).mapError .unit) = beats then extreme beats q qs
    else extreme beats best qs

/-- A function of the value that keeps the unit. -/
def keepUnit (f : Float → Float) (q : Quantity) : Except Error Quantity :=
  .ok { q with value := f q.value }

/-- A function of plain numbers. -/
def ofPlain (f : Float → Float) (q : Quantity) : Except Error Quantity :=
  if q.isDimensionless then .ok (.plain (f q.coherentValue))
  else .error (.evaluation (.dimensionedArgument q))

/-- The value of a function at its first argument and the others. -/
def apply (f : Builtin) (q : Quantity) (qs : List Quantity) : Except Error Quantity :=
  match f with
  | abs => keepUnit Float.abs q
  | round => keepUnit Float.round q
  | floor => keepUnit Float.floor q
  | ceil => keepUnit Float.ceil q
  | sqrt => (q.root 2).mapError .unit
  | min => extreme .lt q qs
  | max => extreme .gt q qs
  | exp => ofPlain Float.exp q
  | ln => ofPlain Float.log q
  | log10 => ofPlain Float.log10 q
  | sin => ofPlain Float.sin q
  | cos => ofPlain Float.cos q
  | tan => ofPlain Float.tan q
  | asin => ofPlain Float.asin q
  | acos => ofPlain Float.acos q
  | atan => ofPlain Float.atan q

/-- The value of a function at its arguments. -/
def call (f : Builtin) (args : List Quantity) : Except Error Quantity :=
  match args with
  | q :: qs => if f.arity.admits args.length then f.apply q qs else wrongArity
  | [] => wrongArity
where
  /-- The error of a wrong number of arguments. -/
  wrongArity := .error (.arity f.name f.arity args.length)

end Builtin

end QuantityCalc
