/-!
# Dimensions

A dimension is a vector of exponents of the seven base dimensions. Exponents are signed bytes:
products, quotients and powers whose exponents leave their range do not exist.

A dimension is written with the symbols of the coherent base units, mass first: positive exponents
as a product, negative ones behind slashes, as in `Kg*m/s^2`. Without a positive exponent the text
is a product of negative powers, as in `s^-1`.
-/

namespace QuantityCalc

/-- The seven base dimensions. -/
inductive BaseDimension where
  | length
  | mass
  | time
  | current
  | temperature
  | amount
  | luminosity
deriving DecidableEq, Repr

namespace BaseDimension

/-- All base dimensions, in the order of their indices. -/
def all : List BaseDimension :=
  [length, mass, time, current, temperature, amount, luminosity]

/-- The index of a base dimension. -/
def index : BaseDimension → Nat
  | length => 0
  | mass => 1
  | time => 2
  | current => 3
  | temperature => 4
  | amount => 5
  | luminosity => 6

/-- The base dimension with an index. -/
def ofIndex? (i : Nat) : Option BaseDimension := all[i]?

/-- The symbol of the coherent unit of a base dimension. -/
def symbol : BaseDimension → String
  | length => "m"
  | mass => "Kg"
  | time => "s"
  | current => "A"
  | temperature => "K"
  | amount => "mol"
  | luminosity => "cd"

theorem mem_all (b : BaseDimension) : b ∈ all := by cases b <;> decide

end BaseDimension

/-- The exponents of the seven base dimensions. -/
@[ext] structure Dimension where
  /-- The exponent of length. -/
  length : Int8 := 0
  /-- The exponent of mass. -/
  mass : Int8 := 0
  /-- The exponent of time. -/
  time : Int8 := 0
  /-- The exponent of electric current. -/
  current : Int8 := 0
  /-- The exponent of temperature. -/
  temperature : Int8 := 0
  /-- The exponent of the amount of substance. -/
  amount : Int8 := 0
  /-- The exponent of luminous intensity. -/
  luminosity : Int8 := 0
deriving DecidableEq

namespace Dimension

/-- The exponent of a base dimension. -/
def exponent (d : Dimension) : BaseDimension → Int8
  | .length => d.length
  | .mass => d.mass
  | .time => d.time
  | .current => d.current
  | .temperature => d.temperature
  | .amount => d.amount
  | .luminosity => d.luminosity

/-- The dimension with given exponents. -/
def ofExponents (f : BaseDimension → Int8) : Dimension where
  length := f .length
  mass := f .mass
  time := f .time
  current := f .current
  temperature := f .temperature
  amount := f .amount
  luminosity := f .luminosity

@[simp] theorem exponent_ofExponents (f : BaseDimension → Int8) (b : BaseDimension) :
    (ofExponents f).exponent b = f b := by
  cases b <;> rfl

theorem ext_exponent {d e : Dimension} (h : ∀ b, d.exponent b = e.exponent b) : d = e :=
  Dimension.ext (h .length) (h .mass) (h .time) (h .current) (h .temperature) (h .amount)
    (h .luminosity)

/-- The dimension of plain numbers. -/
def one : Dimension := {}

@[simp] theorem exponent_one (b : BaseDimension) : one.exponent b = 0 := by cases b <;> rfl

/-- The dimension of one base dimension alone. -/
def base (b : BaseDimension) : Dimension := ofExponents fun c => if c = b then 1 else 0

/-- The dimension that collects the exponents of a list of pairs. -/
def ofPairs (pairs : List (BaseDimension × Int8)) : Dimension :=
  ofExponents fun b => ((pairs.filter (·.1 = b)).map (·.2)).foldl (· + ·) 0

/-- An integer as a signed byte, if it is one. -/
def toExponent? (z : Int) : Option Int8 :=
  if -128 ≤ z ∧ z ≤ 127 then some (Int8.ofInt z) else none

/-- The dimension with the given integers as exponents, if all of them are signed bytes. -/
def ofInts? (f : BaseDimension → Int) : Option Dimension := do
  return {
    length := ← toExponent? (f .length)
    mass := ← toExponent? (f .mass)
    time := ← toExponent? (f .time)
    current := ← toExponent? (f .current)
    temperature := ← toExponent? (f .temperature)
    amount := ← toExponent? (f .amount)
    luminosity := ← toExponent? (f .luminosity) }

/-- The dimension of a product. -/
def mul? (d e : Dimension) : Option Dimension :=
  ofInts? fun b => (d.exponent b).toInt + (e.exponent b).toInt

/-- The dimension of a quotient. -/
def div? (d e : Dimension) : Option Dimension :=
  ofInts? fun b => (d.exponent b).toInt - (e.exponent b).toInt

/-- The dimension of a power. -/
def pow? (d : Dimension) (n : Int8) : Option Dimension :=
  ofInts? fun b => (d.exponent b).toInt * n.toInt

/-- The dimension of a root: it exists if the degree is not zero and divides every exponent. -/
def root? (d : Dimension) (n : Int8) : Option Dimension :=
  if n ≠ 0 ∧ ∀ b ∈ BaseDimension.all, n.toInt ∣ (d.exponent b).toInt then
    some (ofExponents fun b => Int8.ofInt ((d.exponent b).toInt / n.toInt))
  else none

/-! ## The text of a dimension -/

/-- The order in which base units are written. -/
def writingOrder : List BaseDimension :=
  [.mass, .length, .time, .current, .temperature, .amount, .luminosity]

/-- A power of a base unit. The exponent one is not written. -/
def power (b : BaseDimension) (exponent : Int) : String :=
  if exponent = 1 then b.symbol else b.symbol ++ "^" ++ toString exponent

/-- The text of a dimension, empty for plain numbers. -/
def render (d : Dimension) : String :=
  let exponent (b : BaseDimension) : Int := (d.exponent b).toInt
  let above := writingOrder.filter (0 < exponent ·)
  let below := writingOrder.filter (exponent · < 0)
  if above.isEmpty then "*".intercalate (below.map fun b => power b (exponent b))
  else
    "*".intercalate (above.map fun b => power b (exponent b)) ++
      String.join (below.map fun b => "/" ++ power b (-exponent b))

end Dimension

end QuantityCalc
