import QuantityCalc.Decimal.Basic

/-!
# The text of a float

A float is written with the fewest digits that read back as it, in positional notation however large
or small it is, and without a point if it is whole.

The decimals that read back as a given float fill an interval around it. The shortest of them has
the fewest digits, and of those it is the nearest to the float. It is found on coarser and finer
grids: if a point of the grid of multiples of `10 ^ e` lies in the interval, so does one of the two
neighbours of the float on that grid. All numbers are compared as natural numbers: four times the
float, over the unit of the grid.
-/

namespace QuantityCalc.Decimal

/-! ## The shortest decimal -/

/-- A rational number in the measure of one grid: `above / below` grid units. -/
structure Scaled where
  /-- The numerator. -/
  above : Nat
  /-- The denominator. -/
  below : Nat

/-- The absolute value of a float in units of `10 ^ e`. -/
def Binary.scaled (b : Binary) (e : Int) : Scaled :=
  ⟨b.numerator * Nat.pow 10 (-e).toNat, b.denominator * Nat.pow 10 e.toNat⟩

/-- The power of ten of the first digit: `10 ^ e ≤ b < 10 ^ (e + 1)` for a float that is not
zero. -/
def Binary.leading (b : Binary) : Int :=
  let e : Int := digitCount b.numerator - digitCount b.denominator
  let s := b.scaled e
  if s.below ≤ s.above then e else e - 1

/-- The nearest point of the grid of multiples of `10 ^ e` that reads back as the float. -/
def Binary.onGrid? (b : Binary) (e : Int) : Option Nat :=
  let s := b.scaled e
  -- In quarters of the float's last place: the float, and the ends of its interval.
  let unit := s.below * b.mantissa * 4
  let low := s.above * (4 * b.mantissa - if b.isUneven then 1 else 2)
  let high := s.above * (4 * b.mantissa + 2)
  let inside (n : Nat) : Bool :=
    if b.mantissa % 2 = 0 then low ≤ n * unit && n * unit ≤ high
    else low < n * unit && n * unit < high
  let n := s.above / s.below
  let nearer := 2 * (s.above % s.below) < s.below
  match inside n, inside (n + 1) with
  | true, true => some (if nearer then n else n + 1)
  | true, false => some n
  | false, true => some (n + 1)
  | false, false => none

/-- Tries the grids from `10 ^ e` on downwards, and the last one without a test. -/
def Binary.search (b : Binary) : (rounds : Nat) → (e : Int) → Decimal
  | 0, e => ⟨(b.scaled e).above / (b.scaled e).below, e⟩
  | rounds + 1, e =>
    match b.onGrid? e with
    | some n => ⟨n, e⟩
    | none => b.search rounds (e - 1)

/-- The shortest decimal that reads back as the absolute value of the float. Seventeen digits are
always enough. -/
def Binary.shortest (b : Binary) : Decimal :=
  if b.mantissa = 0 then ⟨0, 0⟩ else (b.search 18 b.leading).dropZeros

/-! ## Rounding to significant digits -/

/-- The quotient rounded to the nearest natural number, the even one of two. -/
def roundQuotient (a b : Nat) : Nat :=
  let q := a / b
  let r := 2 * (a % b)
  if r < b then q else if b < r then q + 1 else q + q % 2

/-- The exact value of a float, rounded to `digits` significant digits. -/
def Binary.significant (b : Binary) (digits : Nat) : Decimal :=
  if b.mantissa = 0 then ⟨0, 0⟩
  else
    let e := b.leading - (digits - 1 : Nat)
    let s := b.scaled e
    ⟨roundQuotient s.above s.below, e⟩

/-! ## Texts -/

/-- The text of a float. -/
def display (x : Float) : String :=
  match Binary.ofFloat? x with
  | some b => String.ofList ((if b.negative then ['-'] else []) ++ b.shortest.positional)
  | none => if x.isNaN then "NaN" else if 0 < x then "inf" else "-inf"

/-- The float nearest to `x` rounded to `digits` significant digits, at least one. -/
def roundTo (digits : Nat) (x : Float) : Float :=
  match Binary.ofFloat? x with
  | some b =>
    let r := (b.significant (max digits 1)).toFloat
    if b.negative then -r else r
  | none => x

/-- The text of a float with at most `digits` significant digits, or with all that it needs. -/
def displayTo (digits? : Option Nat) (x : Float) : String :=
  match digits? with
  | some digits => display (roundTo digits x)
  | none => display x

end QuantityCalc.Decimal
