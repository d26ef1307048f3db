import QuantityCalc.Dimension.Basic

/-!
# Units

A unit has a label, a dimension, and the affine map to the coherent unit of its dimension:
`coherent = value * factor + offset`.
-/

namespace QuantityCalc

/-- How a unit came about. Only computed units are exchanged for named ones in results. -/
inductive Origin where
  /-- The symbol is registered, perhaps with a metric prefix. -/
  | named
  /-- The unit was written as an expression. -/
  | expression
  /-- The unit is the result of arithmetic. -/
  | computed
deriving DecidableEq, Repr

/-- A unit of measurement. -/
structure MeasureUnit where
  /-- The label. -/
  symbol : String
  /-- The dimension. -/
  dimension : Dimension
  /-- The size of the unit in coherent units. -/
  factor : Float
  /-- The coherent value of zero. -/
  offset : Float
  /-- How the unit came about. -/
  origin : Origin
deriving DecidableEq

namespace MeasureUnit

/-- The unit of plain numbers. -/
def plain : MeasureUnit := ⟨"", .one, 1, 0, .named⟩

/-- The coherent unit of a dimension, with the text of the dimension as its label. -/
def coherent (d : Dimension) : MeasureUnit := ⟨d.render, d, 1, 0, .computed⟩

/-- Whether zero of the unit is not zero of the coherent unit. -/
def isAffine (u : MeasureUnit) : Bool := u.offset != 0

/-- Whether the unit has no dimension and does not scale. -/
def isPlain (u : MeasureUnit) : Bool :=
  u.dimension = .one && u.factor == 1 && u.offset == 0

/-- Whether values can be converted between two units. -/
def Convertible (u v : MeasureUnit) : Prop := u.dimension = v.dimension

instance (u v : MeasureUnit) : Decidable (u.Convertible v) :=
  inferInstanceAs (Decidable (u.dimension = v.dimension))

/-- The coherent value of a value in the unit. -/
def toCoherent (u : MeasureUnit) (value : Float) : Float := value * u.factor + u.offset

/-- The value in the unit of a coherent value. -/
def ofCoherent (u : MeasureUnit) (value : Float) : Float := (value - u.offset) / u.factor

/-- Whether two units agree in all their parts. Factors and offsets are compared as numbers. -/
def agrees (u v : MeasureUnit) : Bool :=
  u.symbol = v.symbol && u.dimension = v.dimension && u.factor == v.factor &&
    u.offset == v.offset && u.origin = v.origin

/-- The label in an error message: plain numbers are shown as `1`. -/
def shown (u : MeasureUnit) : String := if u.symbol = "" then "1" else u.symbol

end MeasureUnit

end QuantityCalc
