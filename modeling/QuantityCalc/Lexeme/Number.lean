import QuantityCalc.Decimal.Basic
import QuantityCalc.Decimal.Reading

/-!
# Number literals

A literal is a mantissa, decimal or hexadecimal, with an optional fraction and an optional exponent:

    literal  = [sign] ["0x"] digits [("." | ",") digits] [exponent]
    exponent = ("e" | "h") [sign] ["0x"] digits

The exponent counts powers of ten behind `e` and of sixteen behind `h`. Letters stand in either
case. A part is taken only if digits follow its mark, and the comma only where it is a decimal sign.
A literal that begins with a fraction and a bare `0x` are taken as well.

`Literal.scan?` takes the literal at the front of a text apart, `Literal.spelling` puts it together
again, and `Literal.value?` computes its value.
-/

namespace QuantityCalc

/-- The exponent of a literal. -/
structure LiteralExponent where
  /-- The letter that introduces it. -/
  mark : Char
  /-- The sign, if there is one. -/
  sign : Text
  /-- The mark of hexadecimal digits, if there is one. -/
  hexMark : Text
  /-- The digits. -/
  digits : Text

/-- The parts of a number literal. -/
structure Literal where
  /-- The sign, if there is one. -/
  sign : Text
  /-- The mark of hexadecimal digits, if there is one. -/
  hexMark : Text
  /-- The digits before the decimal sign. -/
  whole : Text
  /-- The decimal sign, if there is one. -/
  point : Text
  /-- The digits behind the decimal sign. -/
  fraction : Text
  /-- The exponent, if there is one. -/
  exponent? : Option LiteralExponent

/-- Whether a character is a hexadecimal digit. -/
def isHexDigit (c : Char) : Bool :=
  c.isDigit || ('a' ≤ c && c ≤ 'f') || ('A' ≤ c && c ≤ 'F')

namespace Literal

/-- Whether a character is a digit of the kind that a mark announces. -/
def isDigitOf (hexMark : Text) (c : Char) : Bool :=
  if hexMark.isEmpty then c.isDigit else isHexDigit c

/-- Splits the sign from a text. -/
def splitSign : Text → Text × Text
  | '-' :: t => (['-'], t)
  | '+' :: t => (['+'], t)
  | t => ([], t)

/-- Splits the mark of hexadecimal digits from a text. -/
def splitHexMark : Text → Text × Text
  | '0' :: 'x' :: t => (['0', 'x'], t)
  | '0' :: 'X' :: t => (['0', 'X'], t)
  | t => ([], t)

/-- Splits a decimal sign and the digits behind it from a text. -/
def splitFraction (decimalComma : Bool) (hexMark : Text) : Text → Text × Text × Text
  | c :: d :: t =>
    if (c = '.' || (decimalComma && c = ',')) && isDigitOf hexMark d then
      ([c], d :: t.takeWhile (isDigitOf hexMark), t.dropWhile (isDigitOf hexMark))
    else ([], [], c :: d :: t)
  | t => ([], [], t)

/-- Splits an exponent from a text. -/
def splitExponent : Text → Option LiteralExponent × Text
  | [] => (none, [])
  | c :: t =>
    if c = 'e' || c = 'E' || c = 'h' || c = 'H' then
      let (sign, t₁) := splitSign t
      let (hexMark, t₂) := splitHexMark t₁
      let digits := t₂.takeWhile (isDigitOf hexMark)
      if digits.isEmpty then (none, c :: t)
      else (some ⟨c, sign, hexMark, digits⟩, t₂.dropWhile (isDigitOf hexMark))
    else (none, c :: t)

/-- The literal at the front of a text, with the text behind it. -/
def scan? (decimalComma : Bool) (t : Text) : Option (Literal × Text) :=
  let (sign, t) := splitSign t
  let (hexMark, t) := splitHexMark t
  let whole := t.takeWhile (isDigitOf hexMark)
  let (point, fraction, t) :=
    splitFraction decimalComma hexMark (t.dropWhile (isDigitOf hexMark))
  if whole.isEmpty && fraction.isEmpty then
    if hexMark.isEmpty then none else some (⟨sign, hexMark, whole, point, fraction, none⟩, t)
  else
    let (exponent?, t) := splitExponent t
    some (⟨sign, hexMark, whole, point, fraction, exponent?⟩, t)

/-- The text of an exponent, empty if there is none. -/
def exponentSpelling : Option LiteralExponent → Text
  | some e => e.mark :: (e.sign ++ e.hexMark ++ e.digits)
  | none => []

/-- The text of a literal. -/
def spelling (l : Literal) : Text :=
  l.sign ++ l.hexMark ++ l.whole ++ l.point ++ l.fraction ++ exponentSpelling l.exponent?

theorem splitSign_append (t : Text) : (splitSign t).1 ++ (splitSign t).2 = t := by
  simp only [splitSign]
  split <;> rfl

theorem splitHexMark_append (t : Text) : (splitHexMark t).1 ++ (splitHexMark t).2 = t := by
  simp only [splitHexMark]
  split <;> rfl

theorem splitFraction_append (decimalComma : Bool) (hexMark t : Text) :
    (splitFraction decimalComma hexMark t).1 ++ ((splitFraction decimalComma hexMark t).2.1 ++
      (splitFraction decimalComma hexMark t).2.2) = t := by
  simp only [splitFraction]
  split
  · split
    · simp [List.takeWhile_append_dropWhile]
    · rfl
  · rfl

theorem splitExponent_append (t : Text) :
    exponentSpelling (splitExponent t).1 ++ (splitExponent t).2 = t := by
  match t with
  | [] => rfl
  | c :: t =>
    simp only [splitExponent]
    split
    · split
      · rfl
      · simp only [exponentSpelling, List.cons_append, List.append_assoc,
          List.takeWhile_append_dropWhile, splitHexMark_append, splitSign_append]
    · rfl

theorem spelling_append_of_scan? {decimalComma : Bool} {t rest : Text} {l : Literal}
    (h : scan? decimalComma t = some (l, rest)) : l.spelling ++ rest = t := by
  simp only [scan?] at h
  have hs := splitSign_append t
  have hx := splitHexMark_append (splitSign t).2
  have hw := List.takeWhile_append_dropWhile
    (p := isDigitOf (splitHexMark (splitSign t).2).1) (l := (splitHexMark (splitSign t).2).2)
  have hf := splitFraction_append decimalComma (splitHexMark (splitSign t).2).1
    ((splitHexMark (splitSign t).2).2.dropWhile (isDigitOf (splitHexMark (splitSign t).2).1))
  split at h
  · split at h
    · simp at h
    · simp only [Option.some.injEq, Prod.mk.injEq] at h
      obtain ⟨rfl, rfl⟩ := h
      simp only [spelling, exponentSpelling, List.append_nil, List.append_assoc, hf, hw, hx, hs]
  · simp only [Option.some.injEq, Prod.mk.injEq] at h
    obtain ⟨rfl, rfl⟩ := h
    have he := splitExponent_append (splitFraction decimalComma (splitHexMark (splitSign t).2).1
      ((splitHexMark (splitSign t).2).2.dropWhile
        (isDigitOf (splitHexMark (splitSign t).2).1))).2.2
    simp only [spelling, List.append_assoc, he, hf, hw, hx, hs]

theorem splitSign_of_isDigit {c : Char} (h : c.isDigit = true) (t : Text) :
    splitSign (c :: t) = ([], c :: t) := by
  unfold splitSign
  split
  · rename_i heq
    cases heq
    exact absurd h (by decide)
  · rename_i heq
    cases heq
    exact absurd h (by decide)
  · rfl

/-- Behind a digit at the front of a text there is a literal. -/
theorem scan?_ne_none {c : Char} (hc : c.isDigit = true) (decimalComma : Bool) (t : Text) :
    scan? decimalComma (c :: t) ≠ none := by
  have happend := splitHexMark_append (c :: t)
  simp only [scan?, splitSign_of_isDigit hc]
  by_cases hmark : (splitHexMark (c :: t)).1 = []
  · rw [hmark, List.nil_append] at happend
    have hdigit : isDigitOf [] c = true := hc
    simp [hmark, happend, hdigit]
  · split <;> simp [hmark]

theorem spelling_ne_nil_of_scan? {decimalComma : Bool} {t rest : Text} {l : Literal}
    (h : scan? decimalComma t = some (l, rest)) : l.spelling ≠ [] := by
  simp only [scan?] at h
  split at h
  · split at h
    · simp at h
    · simp only [Option.some.injEq, Prod.mk.injEq] at h
      obtain ⟨rfl, rfl⟩ := h
      simp_all [spelling]
  · simp only [Option.some.injEq, Prod.mk.injEq] at h
    obtain ⟨rfl, rfl⟩ := h
    rename_i hdigits
    intro hnil
    simp only [spelling, List.append_eq_nil_iff] at hnil
    obtain ⟨⟨⟨⟨_, hw⟩, _⟩, hf⟩, _⟩ := hnil
    exact hdigits (by simp only [hw, hf]; rfl)

/-- The value of hexadecimal digits, which have to fit 64 bits. -/
def hexValue? (digits : Text) : Option Float :=
  let n := Decimal.ofDigits 16 digits
  if n < UInt64.size then some (Float.ofNat n) else none

/-- The value of the digits behind a hexadecimal point. The last of them counts a power of sixteen
whose exponent is their number, which has to fit a signed word of 32 bits. -/
def hexFraction? (digits : Text) : Option Float := do
  let value ← hexValue? digits
  if digits.length ≤ Int32.maxValue.toInt then some (value / integerPower 16 digits.length)
  else none

/-- The value of the digits without sign and exponent. A literal without digits has none. -/
def mantissa? (l : Literal) : Option Float :=
  if l.whole.isEmpty && l.fraction.isEmpty then none
  else if l.hexMark.isEmpty then some (Decimal.ofParts l.whole l.fraction 0).toFloat
  else do
    let whole ← hexValue? l.whole
    if l.fraction.isEmpty then return whole
    else return whole + (← hexFraction? l.fraction)

/-- The number of an exponent, which has to fit a signed word of 32 bits. -/
def exponentValue? (e : LiteralExponent) : Option Int :=
  let n := Decimal.ofDigits (if e.hexMark.isEmpty then 10 else 16) e.digits
  if n ≤ Int32.maxValue.toInt then some (if e.sign = ['-'] then -n else n) else none

/-- The factor of an exponent. -/
def exponentFactor? (e : LiteralExponent) : Option Float :=
  (exponentValue? e).map (integerPower (if e.mark = 'e' || e.mark = 'E' then 10 else 16))

/-- The value of a literal; `none` if a part is out of range. -/
def value? (l : Literal) : Option Float := do
  let m ← l.mantissa?
  let m ← match l.exponent? with
    | some e => (exponentFactor? e).map (m * ·)
    | none => some m
  return if l.sign = ['-'] then -m else m

end Literal

end QuantityCalc
