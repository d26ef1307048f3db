import QuantityCalc.Decimal.Basic
import QuantityCalc.Decimal.Display
import QuantityCalc.Unit.Basic
import QuantityCalc.Unit.Error
import QuantityCalc.Unit.System

/-!
# Quantities

A quantity is a value in a unit. Sums keep the unit of their left side. Products, quotients, powers
and roots are taken of coherent values and have coherent units, unless one side is a plain number.

Quantities of one dimension are compared by their coherent values. Values whose distance is small
relative to the larger of them count as equal.
-/

namespace QuantityCalc

/-- A value in a unit. -/
structure Quantity where
  /-- The value. -/
  value : Float
  /-- The unit. -/
  unit : MeasureUnit
deriving DecidableEq

namespace Quantity

/-- A plain number. -/
def plain (value : Float) : Quantity := ⟨value, .plain⟩

/-- The dimension of a quantity. -/
def dimension (q : Quantity) : Dimension := q.unit.dimension

/-- The value in the coherent unit. -/
def coherentValue (q : Quantity) : Float := q.unit.toCoherent q.value

/-- Whether a quantity has the dimension of plain numbers. -/
def isDimensionless (q : Quantity) : Bool := q.dimension = .one

/-- The coherent quantity with a value and a dimension, if there is such a dimension. -/
def coherent (value : Float) : Option Dimension → Except UnitError Quantity
  | some d => .ok ⟨value, .coherent d⟩
  | none => .error .overflow

/-- The error of two units that are not convertible. -/
def incompatible (u v : MeasureUnit) : UnitError := .incompatible u.shown v.shown

/-- The value of `q` in the unit of `p`. -/
def align (p q : Quantity) : Except UnitError Float :=
  if p.unit.Convertible q.unit then .ok (p.unit.ofCoherent q.coherentValue)
  else .error (incompatible p.unit q.unit)

/-- The sum, in the unit of the left side. -/
def add (p q : Quantity) : Except UnitError Quantity := do
  return { p with value := p.value + (← p.align q) }

/-- The difference, in the unit of the left side. -/
def sub (p q : Quantity) : Except UnitError Quantity := do
  return { p with value := p.value - (← p.align q) }

/-- A multiple, in the same unit. -/
def scale (q : Quantity) (k : Float) : Quantity := { q with value := q.value * k }

/-- The quantity with the opposite sign. -/
def neg (q : Quantity) : Quantity := q.scale (-1)

/-- The product. A plain number scales the other side. -/
def mul (p q : Quantity) : Except UnitError Quantity :=
  if q.unit.isPlain then .ok (p.scale q.value)
  else if p.unit.isPlain then .ok (q.scale p.value)
  else coherent (p.coherentValue * q.coherentValue) (p.dimension.mul? q.dimension)

/-- The quotient. A plain number scales the left side. -/
def div (p q : Quantity) : Except UnitError Quantity :=
  if q.unit.isPlain then .ok (p.scale (1 / q.value))
  else coherent (p.coherentValue / q.coherentValue) (p.dimension.div? q.dimension)

/-- The power with an integer exponent. -/
def pow (q : Quantity) (n : Int8) : Except UnitError Quantity :=
  if n = 0 then .ok (plain 1)
  else if n = 1 then .ok q
  else if q.unit.isPlain then .ok (plain (integerPower q.value n.toInt))
  else if q.unit.isAffine then .error (.affine q.unit.symbol)
  else coherent (integerPower q.coherentValue n.toInt) (q.dimension.pow? n)

/-- The root of a value, if there is one. An odd root of a negative value is negative. -/
def rootValue (value : Float) (n : Int8) : Except UnitError Float :=
  let degree := n.toFloat
  if value < 0 then
    if n % 2 = 0 then .error (.domain .evenRootOfNegative)
    else .ok (-(-value).pow (1 / degree))
  else .ok (value.pow (1 / degree))

/-- The root with a degree above zero. -/
def positiveRoot (q : Quantity) (n : Int8) : Except UnitError Quantity :=
  if n = 1 then .ok q
  else if q.unit.isAffine then .error (.affine q.unit.symbol)
  else
    match q.dimension.root? n with
    | none => .error (.notRootable q.unit.symbol n)
    | some d => do
      let value ← rootValue q.coherentValue n
      return ⟨value, if d = .one then .plain else .coherent d⟩

/-- The root with an integer degree. For a negative degree it is the reciprocal of the root with the
opposite one. -/
def root (q : Quantity) (n : Int8) : Except UnitError Quantity :=
  if n = 0 then .error (.domain .zerothRoot)
  else if n < 0 then
    if n = -128 then .error .overflow
    else do (plain 1).div (← q.positiveRoot (-n))
  else q.positiveRoot n

/-- The power of a dimensionless quantity with any exponent. -/
def realPower (q : Quantity) (exponent : Float) : Except UnitError Quantity :=
  if q.isDimensionless then .ok (plain (q.coherentValue.pow exponent))
  else .error (.dimensionedExponent q.unit.symbol)

/-- A quantity counts as true unless it is a dimensionless zero. -/
def isTruthy (q : Quantity) : Bool := !(q.isDimensionless && q.coherentValue == 0)

/-- The quantity that stands for a truth value. -/
def ofBool (b : Bool) : Quantity := plain (if b then 1 else 0)

/-- Whether two quantities agree in all their parts. Floats are compared as numbers. -/
def agrees (p q : Quantity) : Bool := p.value == q.value && p.unit.agrees q.unit

/-! ## The order of quantities -/

/-- The greatest distance of equal values, relative to the larger of them. -/
def tolerance : Float := 1e-12

/-- Whether two values count as equal. -/
def nearlyEqual (a b : Float) : Bool :=
  let larger := if a.abs < b.abs then b.abs else a.abs
  (a - b).abs ≤ tolerance * larger

/-- The order of two values. -/
def compareValues (a b : Float) : Except UnitError Ordering :=
  if nearlyEqual a b then .ok .eq
  else if a < b then .ok .lt
  else if a == b then .ok .eq
  else if b < a then .ok .gt
  else .error (.domain .notComparable)

/-- The order of two quantities. -/
def compare (p q : Quantity) : Except UnitError Ordering :=
  if p.unit.Convertible q.unit then compareValues p.coherentValue q.coherentValue
  else .error (incompatible p.unit q.unit)

/-! ## Conversions -/

/-- The quantity in another unit of its dimension. -/
def convert (q : Quantity) (target : MeasureUnit) : Except UnitError Quantity :=
  if q.unit.Convertible target then .ok ⟨target.ofCoherent q.coherentValue, target⟩
  else .error (incompatible q.unit target)

/-- The quantity in another unit. If that has another dimension, the quantity keeps its own and is
labelled `target*(source/target)`. -/
def convertOrCombine (q : Quantity) (target : MeasureUnit) : Quantity :=
  if q.unit.Convertible target then ⟨target.ofCoherent q.coherentValue, target⟩
  else
    let label := s!"{target.symbol}*({q.unit.shown}/{target.symbol})"
    ⟨q.coherentValue / q.unit.factor, ⟨label, q.dimension, q.unit.factor, 0, .expression⟩⟩

/-- A computed quantity in the named unit of its dimension, if the system has one. A dimensionless
one becomes a plain number. -/
def relabel (q : Quantity) (s : UnitSystem) : Quantity :=
  if q.unit.origin ≠ .computed then q
  else if q.isDimensionless then plain q.coherentValue
  else
    match s.namedFor? q.dimension with
    | some u => ⟨u.ofCoherent q.coherentValue, u⟩
    | none => q

/-! ## The text of a quantity -/

/-- The value with at most so many significant digits, or with all that it needs, and the label of
the unit if it has one. -/
def format (digits? : Option Nat) (q : Quantity) : String :=
  let value := Decimal.displayTo digits? q.value
  if q.unit.symbol = "" then value else value ++ " " ++ q.unit.symbol

/-- The value with all the digits that it needs, and the label of the unit. -/
def display (q : Quantity) : String := q.format none

end Quantity

end QuantityCalc
