/-!
# What can be wrong with units
-/

namespace QuantityCalc

/-- Why a text is not a unit expression, or a symbol not a unit symbol. -/
inductive UnitFault where
  /-- The text is blank. -/
  | blank
  /-- Something follows the expression. -/
  | trailing
  /-- A caret is not followed by digits. -/
  | exponentDigits
  /-- An exponent does not fit a signed byte. -/
  | exponentRange
  /-- An exponent is zero. -/
  | zeroExponent
  /-- A parenthesis is not closed. -/
  | unclosed
  /-- An integer does not fit 64 bits. -/
  | integerRange
  /-- An integer is zero. -/
  | zeroInteger
  /-- No unit symbol stands where one has to. -/
  | noSymbol
  /-- A symbol to be declared does not consist of letters. -/
  | notLetters
deriving DecidableEq, Repr

/-- The wording of a fault. -/
def UnitFault.message : UnitFault → String
  | blank => "empty unit expression"
  | trailing => "unexpected trailing input"
  | exponentDigits => "expected exponent digits after '^'"
  | exponentRange => "exponent out of range"
  | zeroExponent => "zero exponent"
  | unclosed => "missing ')' in unit expression"
  | integerRange => "integer out of range"
  | zeroInteger => "zero is not a unit factor"
  | noSymbol => "expected unit symbol"
  | notLetters => "unit symbols consist of letters only"

/-- Why an operation on quantities has no result. -/
inductive DomainFault where
  /-- The zeroth root was asked for. -/
  | zerothRoot
  /-- An even root of a negative value was asked for. -/
  | evenRootOfNegative
  /-- One of the values to compare is not a number. -/
  | notComparable
deriving DecidableEq, Repr

/-- The wording of a fault. -/
def DomainFault.message : DomainFault → String
  | zerothRoot => "zeroth root"
  | evenRootOfNegative => "even root of a negative value"
  | notComparable => "comparison with NaN"

/-- The errors of units and of the arithmetic of quantities. -/
inductive UnitError where
  /-- A unit expression is malformed at a byte of its text. -/
  | malformed (position : Nat) (fault : UnitFault)
  /-- A symbol is not registered. -/
  | unknown (symbol : String)
  /-- A symbol is registered already. -/
  | duplicate (symbol : String)
  /-- A unit with an offset stands in a product, a power or a root. -/
  | affine (symbol : String)
  /-- Two units have different dimensions. -/
  | incompatible (source target : String)
  /-- A unit has no root of this degree. -/
  | notRootable (unit : String) (degree : Int8)
  /-- An exponent has a dimension. -/
  | dimensionedExponent (unit : String)
  /-- An operation has no result. -/
  | domain (fault : DomainFault)
  /-- An exponent of a dimension leaves its range. -/
  | overflow
deriving DecidableEq

/-- The text of an error. -/
def UnitError.message : UnitError → String
  | malformed position fault => s!"invalid unit syntax at byte {position}: {fault.message}"
  | unknown symbol => s!"unknown unit symbol '{symbol}'"
  | duplicate symbol => s!"unit symbol '{symbol}' is already declared"
  | affine symbol => s!"cannot apply exponent or combine affine unit '{symbol}'"
  | incompatible source target => s!"incompatible units: '{source}' vs '{target}'"
  | notRootable unit degree => s!"cannot take root {degree} of unit '{unit}'"
  | dimensionedExponent unit => s!"exponent must be dimensionless, got '{unit}'"
  | domain fault => s!"math domain error: {fault.message}"
  | overflow => "dimension exponent overflow"

end QuantityCalc
