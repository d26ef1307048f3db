import QuantityCalc.Settings.Toml.Basic
import QuantityCalc.Settings.Toml.Quoted

/-!
# Scalars of TOML

A scalar is a string, a truth value, a number or a moment: a date, a time of day, or both with or
without an offset. Digits of numbers may be grouped by underscores. A moment counts as the text of
its normal form.
-/

namespace QuantityCalc.Settings.Toml

open Reader

/-- Digits, with single underscores between them. -/
def digits (p : Char → Bool) : Reader Text := do
  let groups ← separated1 (span1 p) (word ['_'])
  return groups.flatten

/-- A sign, if there is one. -/
def sign : Reader Text := List.singleton <$> char (fun c => c = '+' || c = '-') <|> pure []

/-- A whole number without a sign. It is zero, or does not start with a zero. -/
def unsigned : Reader Text := do
  let ds ← digits Char.isDigit
  if ds.head? = some '0' && ds ≠ ['0'] then failure else return ds

/-- A fraction with its point. -/
def fraction : Reader Text := do
  word ['.']
  return '.' :: (← digits Char.isDigit)

/-- An exponent with its mark. -/
def exponent : Reader Text := do
  let _ ← char fun c => c = 'e' || c = 'E'
  let s ← sign
  return 'e' :: s ++ (← digits Char.isDigit)

/-- A float. One that exceeds all floats is refused. -/
def real : Reader Value := do
  let s ← sign
  let word ← (word "inf".toList *> pure "inf".toList) <|>
    (word "nan".toList *> pure "nan".toList) <|> do
      let ds ← unsigned
      let f ← maybe fraction
      let e ← maybe exponent
      if f.isNone && e.isNone then failure
      let t := ds ++ f.getD [] ++ e.getD []
      if s ≠ ['-'] && Decimal.read? t == some (1 / 0) then failure
      return t
  match Decimal.read? (s ++ word) with
  | some x => return .real x
  | none => failure

/-- A whole number in another base, without a sign. -/
def inBase (base : Nat) (mark : Text) (p : Char → Bool) : Reader Value := do
  word mark
  let n := Decimal.ofDigits base (← digits p)
  if n ≤ Int64.maxValue.toInt then return .whole n else failure

/-- A whole number. -/
def whole : Reader Value :=
  inBase 16 ['0', 'x'] (fun c => c.isDigit || c.toLower ∈ "abcdef".toList) <|>
  inBase 8 ['0', 'o'] (fun c => '0' ≤ c && c ≤ '7') <|>
  inBase 2 ['0', 'b'] (fun c => c = '0' || c = '1') <|> do
    let t := (← sign) ++ (← unsigned)
    match whole? t with
    | some n => return .whole n
    | none => failure

/-- So many digits that denote a number from `low` to `high`. -/
def field (width low high : Nat) : Reader Text := do
  let ds ← times (char Char.isDigit) width
  let n := Decimal.ofDigits 10 ds
  if low ≤ n && n ≤ high then return ds else failure

/-- The number of days of a month. -/
def daysOf (year month : Nat) : Nat :=
  if month = 2 then
    if year % 4 = 0 && (year % 100 ≠ 0 || year % 400 = 0) then 29 else 28
  else if month ∈ [4, 6, 9, 11] then 30
  else 31

/-- A date. -/
def date : Reader Text := do
  let year ← field 4 0 9999
  word ['-']
  let month ← field 2 1 12
  word ['-']
  let day ← field 2 1 (daysOf (Decimal.ofDigits 10 year) (Decimal.ofDigits 10 month))
  return year ++ '-' :: month ++ '-' :: day

/-- A time of day. Of the fraction of a second nine digits count. -/
def time : Reader Text := do
  let hour ← field 2 0 23
  word [':']
  let minute ← field 2 0 59
  word [':']
  let second ← field 2 0 60
  let part ← maybe (word ['.'] *> span1 Char.isDigit)
  let part := ((part.getD []).take 9).reverse.dropWhile (· = '0')
  let fraction := if part.isEmpty then [] else '.' :: part.reverse
  return hour ++ ':' :: minute ++ ':' :: second ++ fraction

/-- The offset of a time from that of the zero meridian. -/
def offset : Reader Text :=
  (fun _ => ['Z']) <$> char (fun c => c = 'Z' || c = 'z') <|> do
    let s ← char fun c => c = '+' || c = '-'
    let hour ← field 2 0 23
    word [':']
    let minute ← field 2 0 59
    let s := if Decimal.ofDigits 10 (hour ++ minute) = 0 then '+' else s
    return s :: hour ++ ':' :: minute

/-- A date and a time of day, with an offset if there is one. -/
def dateTime : Reader Text := do
  let d ← date
  let _ ← char fun c => c = 'T' || c = 't' || c = ' '
  let t ← time
  let o ← maybe offset
  return d ++ 'T' :: t ++ o.getD []

/-- A moment. -/
def moment : Reader Text := dateTime <|> date <|> time

/-- A truth value. -/
def flag : Reader Bool := word "true".toList *> pure true <|> word "false".toList *> pure false

/-- A scalar. -/
def scalar : Reader Node :=
  (fun s => .scalar (.text (String.ofList s))) <$> string <|>
  (fun b => .scalar (.flag b)) <$> flag <|>
  .moment <$> moment <|>
  .scalar <$> (real <|> whole)

end QuantityCalc.Settings.Toml
