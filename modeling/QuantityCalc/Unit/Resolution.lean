import QuantityCalc.Unit.System

/-!
# The unit of an expression

A unit expression is resolved against a system of units. One symbol alone denotes its unit. Any
other expression is multiplied out: first the factors above the slashes, in their order, then it is
divided by those below. Units with an offset may not take part in that.
-/

namespace QuantityCalc

/-- The dimension of a product of units and its size in coherent units. -/
structure UnitProduct where
  /-- The dimension. -/
  dimension : Dimension := .one
  /-- The size in coherent units. -/
  factor : Float := 1

namespace UnitProduct

/-- The product or the quotient of two products. -/
def combine (below : Bool) (a b : UnitProduct) : Except UnitError UnitProduct :=
  match if below then a.dimension.div? b.dimension else a.dimension.mul? b.dimension with
  | some d => .ok ⟨d, if below then a.factor / b.factor else a.factor * b.factor⟩
  | none => .error .overflow

/-- The power of a product. -/
def pow (a : UnitProduct) (n : Int8) : Except UnitError UnitProduct :=
  match a.dimension.pow? n with
  | some d => .ok ⟨d, integerPower a.factor n.toInt⟩
  | none => .error .overflow

end UnitProduct

namespace UnitSystem

mutual

/-- The product that a term denotes. -/
def termProduct (s : UnitSystem) : UnitTerm → Except UnitError UnitProduct
  | .symbol name =>
    match s.lookup? name with
    | none => .error (.unknown name)
    | some u => if u.isAffine then .error (.affine name) else .ok ⟨u.dimension, u.factor⟩
  | .integer n => .ok ⟨.one, Float.ofNat n⟩
  | .group numerator denominator => do
    s.factorsProduct true (← s.factorsProduct false {} numerator) denominator

/-- The product that a term with its exponent denotes. -/
def factorProduct (s : UnitSystem) : UnitTerm × Int8 → Except UnitError UnitProduct
  | (term, n) => do (← s.termProduct term).pow n

/-- Multiplies a product by factors, or divides it by them. -/
def factorsProduct (s : UnitSystem) (below : Bool) (a : UnitProduct) :
    List (UnitTerm × Int8) → Except UnitError UnitProduct
  | [] => .ok a
  | f :: fs => do s.factorsProduct below (← a.combine below (← s.factorProduct f)) fs

end

/-- The product that an expression denotes. -/
def product (s : UnitSystem) (e : UnitExpr) : Except UnitError UnitProduct :=
  s.termProduct (.group e.numerator e.denominator)

/-- The unit that an expression denotes, with a label for it. One symbol alone keeps its own. -/
def resolve (s : UnitSystem) (e : UnitExpr) (label : String) : Except UnitError MeasureUnit :=
  match e.single? with
  | some name => match s.lookup? name with
    | some u => .ok u
    | none => .error (.unknown name)
  | none => do
    let p ← s.product e
    return ⟨label, p.dimension, p.factor, 0, .expression⟩

/-- The unit that a whole text denotes. -/
def parse (s : UnitSystem) (t : Text) : Except UnitError MeasureUnit := do
  s.resolve (← UnitExpr.parse t) (String.ofList (Text.trim t))

/-- The unit at the front of a text, with the text behind it; `none` if the text does not start with
a symbol that denotes a unit. -/
def scan? (s : UnitSystem) (t : Text) : Option (Except UnitError (MeasureUnit × Text)) :=
  (UnitExpr.scan? s.contains t).map fun (e, rest) => do
    let label := t.take (t.length - rest.length)
    return (← s.resolve e (String.ofList label), rest)

end UnitSystem

end QuantityCalc
