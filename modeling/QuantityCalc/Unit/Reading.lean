import QuantityCalc.Decimal.Reading
import QuantityCalc.Text.Cursor
import QuantityCalc.Text.Letter
import QuantityCalc.Unit.Error

/-!
# Unit expressions

A unit expression is a quotient of products of terms with exponents, such as `Kg*m/s^2`. Its symbols
have no meaning until a system of units resolves them.

The grammar, in which no white space may stand:

    expression = factor { ("*" | "·" | "/") factor }
    factor     = primary [ "^" [ "-" ] digits ]
    primary    = symbol | integer | "(" expression ")"
    symbol     = letters and degree signs

A whole text is read by `UnitExpr.parse`. The unit behind a number is read by `UnitExpr.scan?`: the
longest front of the text that is an expression of known symbols, without integers.
-/

namespace QuantityCalc

/-- A term of a unit expression. -/
inductive UnitTerm where
  /-- A unit symbol. -/
  | symbol (name : String)
  /-- A positive integer, as the `1` of `1/s`. -/
  | integer (n : Nat)
  /-- An expression in parentheses, as its factors above and below the slashes. -/
  | group (numerator denominator : List (UnitTerm × Int8))

/-- A term with an exponent. -/
abbrev UnitFactor := UnitTerm × Int8

/-- A unit expression: its factors in the order of the text, those behind a slash apart. -/
structure UnitExpr where
  /-- The factors that are not behind a slash. -/
  numerator : List UnitFactor
  /-- The factors behind a slash. -/
  denominator : List UnitFactor

namespace UnitExpr

/-- The expression with one more factor at its end. -/
def push (e : UnitExpr) (below : Bool) (f : UnitFactor) : UnitExpr :=
  if below then { e with denominator := e.denominator ++ [f] }
  else { e with numerator := e.numerator ++ [f] }

/-- The symbol of an expression that is one symbol with the exponent one. -/
def single? (e : UnitExpr) : Option String :=
  match e.numerator, e.denominator with
  | [(.symbol name, 1)], [] => some name
  | _, _ => none

/-! ## Reading -/

/-- Whether a character may stand in a unit symbol. -/
def isSymbolChar (c : Char) : Bool := Text.isLetter c || c = '°'

/-- How much of a text an expression is to take. -/
inductive Extent where
  /-- All of it: whatever does not fit is an error. -/
  | whole
  /-- As much as is an expression of symbols that are known. -/
  | longest (known : String → Bool)

/-- Whether an expression may stop before what does not fit. -/
def Extent.mayStop : Extent → Bool
  | whole => false
  | longest _ => true

/-- Whether a symbol is admitted. -/
def Extent.admits : Extent → String → Bool
  | whole, _ => true
  | longest known, name => known name

/-- The error that a fault makes at a place. -/
def faultAt (c : Cursor) (fault : UnitFault) : UnitError := .malformed c.position fault

/-- Reads a symbol, an integer or a group. -/
def primary (extent : Extent) (group : Cursor → Except UnitError (UnitExpr × Cursor))
    (c : Cursor) : Except UnitError (UnitTerm × Cursor) :=
  match c.rest with
  | '(' :: rest => do
    let (e, c) ← group (c.moveTo rest)
    match c.rest with
    | ')' :: rest => return (.group e.numerator e.denominator, c.moveTo rest)
    | _ => throw (faultAt c .unclosed)
  | d :: rest =>
    if d.isDigit && !extent.mayStop then do
      let n := Decimal.ofDigits 10 (d :: rest.takeWhile Char.isDigit)
      let c := c.moveTo (rest.dropWhile Char.isDigit)
      if UInt64.size ≤ n then throw (faultAt c .integerRange)
      if n = 0 then throw (faultAt c .zeroInteger)
      return (.integer n, c)
    else if isSymbolChar d then
      let name := String.ofList (d :: rest.takeWhile isSymbolChar)
      if extent.admits name then .ok (.symbol name, c.moveTo (rest.dropWhile isSymbolChar))
      else .error (.unknown name)
    else .error (faultAt c .noSymbol)
  | [] => .error (faultAt c .noSymbol)

/-- Splits a minus sign from a text: whether there is one, and the text behind it. -/
def splitMinus : Text → Bool × Text
  | '-' :: t => (true, t)
  | t => (false, t)

/-- Reads the exponent of a term, one if none is written. -/
def exponent (extent : Extent) (c : Cursor) : Except UnitError (Int8 × Cursor) :=
  match c.rest with
  | '^' :: rest =>
    let (negative, rest) := splitMinus rest
    let digits := rest.takeWhile Char.isDigit
    if digits.isEmpty then
      if extent.mayStop then .ok (1, c) else .error (faultAt (c.moveTo rest) .exponentDigits)
    else
      let c := c.moveTo (rest.dropWhile Char.isDigit)
      let n := Decimal.ofDigits 10 digits
      if 127 < n then .error (faultAt c .exponentRange)
      else if n = 0 then .error (faultAt c .zeroExponent)
      else .ok (Int8.ofInt (if negative then -n else n), c)
  | _ => .ok (1, c)

/-- Reads a term and its exponent. -/
def factor (extent : Extent) (group : Cursor → Except UnitError (UnitExpr × Cursor))
    (c : Cursor) : Except UnitError (UnitFactor × Cursor) := do
  let (term, c) ← primary extent group c
  let (n, c) ← exponent extent c
  return ((term, n), c)

/-- Reads the sign between two factors: whether it is a slash, and the text behind it. -/
def sign? : Text → Option (Bool × Text)
  | '*' :: t => some (false, t)
  | '·' :: t => some (false, t)
  | '/' :: t => some (true, t)
  | _ => none

/-- Whether an expression that may stop goes on behind a sign. -/
def goesOn (t : Text) : Bool := t.head?.any fun c => isSymbolChar c || c = '('

/-- Reads the factors that follow those of `e`, at most `rounds` of them. -/
def factors (extent : Extent) (group : Cursor → Except UnitError (UnitExpr × Cursor)) :
    (rounds : Nat) → Cursor → UnitExpr → Except UnitError (UnitExpr × Cursor)
  | 0, c, e => .ok (e, c)
  | rounds + 1, c, e =>
    match sign? c.rest with
    | none => .ok (e, c)
    | some (below, rest) =>
      if extent.mayStop && !goesOn rest then .ok (e, c)
      else
        match factor extent group (c.moveTo rest) with
        | .ok (f, c) => factors extent group rounds c (e.push below f)
        | .error error => if extent.mayStop then .ok (e, c) else .error error

/-- Reads an expression in which groups are nested less than `depth` deep. -/
def expression (extent : Extent) :
    (depth : Nat) → Cursor → Except UnitError (UnitExpr × Cursor)
  | 0, c => .error (faultAt c .noSymbol)
  | depth + 1, c => do
    let (f, c) ← factor extent (expression extent depth) c
    -- Each further factor takes a character at least, so its rounds suffice.
    factors extent (expression extent depth) c.rest.length c ⟨[f], []⟩

/-- Reads an expression at the front of a text, with room for as many groups as it has
characters. -/
def read (extent : Extent) (t : Text) : Except UnitError (UnitExpr × Cursor) :=
  expression extent (t.length + 1) (.start t)

/-- The expression that a text is, apart from the white space around it. -/
def parse (t : Text) : Except UnitError UnitExpr :=
  let t := Text.trim t
  if t.isEmpty then .error (.malformed 0 .blank)
  else do
    let (e, c) ← read .whole t
    if c.rest.isEmpty then return e else throw (faultAt c .trailing)

/-- Checks that a text is an expression. -/
def validate (t : Text) : Except UnitError Unit := do
  let _ ← parse t

/-- The longest expression of known symbols at the front of a text, with the text behind it. The
text has to start with a symbol. -/
def scan? (known : String → Bool) (t : Text) : Option (UnitExpr × Text) :=
  if t.head?.any isSymbolChar then
    match read (.longest known) t with
    | .ok (e, c) => some (e, c.rest)
    | .error _ => none
  else none

end UnitExpr

end QuantityCalc
