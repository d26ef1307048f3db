import QuantityCalc.Decimal.Basic
import QuantityCalc.Text.Basic

/-!
# Reading a float

The written forms of a float: an optional sign, then `inf`, `infinity` or `nan` in any case, or
digits with an optional point among, before or behind them and an optional exponent.
-/

namespace QuantityCalc.Decimal

/-- The value of a digit in a base up to sixteen. -/
def digitValue (c : Char) : Nat :=
  if c.isDigit then c.toNat - '0'.toNat else c.toLower.toNat - 'a'.toNat + 10

/-- The natural number that digits denote in a base, the first digit being the highest. -/
def ofDigits (base : Nat) (digits : Text) : Nat :=
  digits.foldl (fun n c => base * n + digitValue c) 0

/-- The decimal written as `whole.fraction` followed by the exponent. -/
def ofParts (whole fraction : Text) (exponent : Int) : Decimal :=
  ⟨ofDigits 10 (whole ++ fraction), exponent - fraction.length⟩

/-- The sign at the front of a text, and the text behind it. -/
def takeSign : Text → Bool × Text
  | '-' :: t => (true, t)
  | '+' :: t => (false, t)
  | t => (false, t)

/-- The whole number that a text denotes: a sign, if there is one, and at least one digit. -/
def integer? (t : Text) : Option Int :=
  let (negative, digits) := takeSign t
  if digits.isEmpty || !digits.all Char.isDigit then none
  else some (if negative then -ofDigits 10 digits else ofDigits 10 digits)

/-- A number without a sign that fills the text. -/
def unsigned? (t : Text) : Option Float :=
  let whole := t.takeWhile Char.isDigit
  let t := t.dropWhile Char.isDigit
  let (fraction, t) := match t with
    | '.' :: t => (t.takeWhile Char.isDigit, t.dropWhile Char.isDigit)
    | t => ([], t)
  if whole.isEmpty && fraction.isEmpty then none
  else
    match t with
    | [] => some (ofParts whole fraction 0).toFloat
    | c :: t =>
      if c = 'e' || c = 'E' then
        (integer? t).map fun e => (ofParts whole fraction e).toFloat
      else none

/-- The float that a text denotes, if it is one of the written forms. -/
def read? (t : Text) : Option Float :=
  let (negative, t) := takeSign t
  let x? : Option Float := match String.ofList (t.map Char.toLower) with
    | "inf" | "infinity" => some (1 / 0)
    | "nan" => some (0 / 0)
    | _ => unsigned? t
  x?.map fun x => if negative then -x else x

end QuantityCalc.Decimal
