/-!
# Decimal numbers and floats

A decimal is `digits · 10 ^ exponent`. It is written without an exponent, and it is read as the
nearest float. A finite float is `± m · 2 ^ e` with a natural number `m` below `2 ^ 53`. Exact
arithmetic on decimal digits works on this form.

Integer powers of floats are taken by repeated squaring, in a fixed order of multiplications, and a
negative power is the reciprocal of the positive one. The order decides the last bits of the result.
-/

namespace QuantityCalc

/-- The number `digits · 10 ^ exponent`. -/
structure Decimal where
  /-- The digits, read as one natural number. -/
  digits : Nat
  /-- The power of ten of the last digit. -/
  exponent : Int
deriving DecidableEq, Repr

namespace Decimal

/-- The number of decimal digits of `n`, one for zero. -/
def digitCount (n : Nat) : Nat := (Nat.toDigits 10 n).length

/-- The text of a decimal in positional notation: zeros fill up to the point, and a number below one
has one zero before it. -/
def positional (d : Decimal) : List Char :=
  let digits := Nat.toDigits 10 d.digits
  if 0 ≤ d.exponent then digits ++ List.replicate d.exponent.toNat '0'
  else
    let places := (-d.exponent).toNat
    if digits.length ≤ places then
      '0' :: '.' :: List.replicate (places - digits.length) '0' ++ digits
    else digits.take (digits.length - places) ++ '.' :: digits.drop (digits.length - places)

/-- The nearest float, the even one of two. Outside of the range of floats it is zero or
infinite. -/
def toFloat (d : Decimal) : Float :=
  if d.digits = 0 then 0
  else
    let magnitude := d.exponent + digitCount d.digits
    if magnitude < -330 then 0
    else if 330 < magnitude then 1 / 0
    else Float.ofScientific d.digits (d.exponent < 0) d.exponent.natAbs

/-- The decimal without zeros at the end of its digits. -/
def dropZeros (d : Decimal) : Decimal :=
  go d.digits d.exponent
where
  /-- Moves one zero after the other into the exponent. -/
  go (n : Nat) (e : Int) : Decimal :=
    if h : n ≠ 0 ∧ n % 10 = 0 then go (n / 10) (e + 1) else ⟨n, e⟩
  termination_by n
  decreasing_by omega

/-! ## Floats as multiples of powers of two -/

/-- The absolute value `mantissa · 2 ^ exponent` of a finite float and its sign. -/
structure Binary where
  /-- Whether the sign bit is set. -/
  negative : Bool
  /-- The integer mantissa. -/
  mantissa : Nat
  /-- The power of two that the mantissa counts. -/
  exponent : Int
deriving DecidableEq, Repr

namespace Binary

/-- The sign bit of a float. -/
def signBit (x : Float) : Bool := x.toBits >>> 63 = 1

/-- The leading bit of the mantissa, which the bits of a float leave out. -/
def leadingBit : Nat := 1 <<< 52

/-- The form of a finite float, `none` for infinities and for what is not a number. -/
def ofFloat? (x : Float) : Option Binary :=
  let bits := x.toBits.toNat
  let fraction := bits % leadingBit
  let field := bits / leadingBit % 2048
  if field = 2047 then none
  else if field = 0 then some ⟨signBit x, fraction, -1074⟩
  else some ⟨signBit x, leadingBit + fraction, (field : Int) - 1075⟩

/-- Whether the neighbour below is only half as far away as the neighbour above: so it is at a power
of two that is not the least normal number. -/
def isUneven (b : Binary) : Bool := b.mantissa = leadingBit && b.exponent != -1074

/-- The numerator of the absolute value over `denominator`. -/
def numerator (b : Binary) : Nat := b.mantissa <<< b.exponent.toNat

/-- A denominator of the absolute value. -/
def denominator (b : Binary) : Nat := 1 <<< (-b.exponent).toNat

end Binary

end Decimal

/-! ## Integer powers of floats -/

/-- The product of `r` and the power of `a` whose exponent is `n`, by repeated squaring: the
exponent loses one binary digit in each round. -/
def powerLoop (a r : Float) (n : Nat) : Float :=
  let n' := n / 2
  if n' = 0 then r
  else
    let a := a * a
    powerLoop a (if n' % 2 = 1 then r * a else r) n'
termination_by n
decreasing_by omega

/-- The integer power `a ^ n`. -/
def integerPower (a : Float) (n : Int) : Float :=
  let r := powerLoop a (if n.natAbs % 2 = 1 then a else 1) n.natAbs
  if n < 0 then 1 / r else r

end QuantityCalc
