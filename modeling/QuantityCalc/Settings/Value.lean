import QuantityCalc.Decimal.Display
import QuantityCalc.Decimal.Reading

/-!
# Values of settings

What a file or a variable gives for a setting is a value of some kind, and all that is given is a
table of such values. A setting asks for a truth value, a count or a text, and takes whatever can
stand for one.
-/

namespace QuantityCalc.Settings

/-- A value that is given for a setting. -/
inductive Value where
  /-- No value, as in the place of a list that nothing was assigned to. -/
  | nothing
  /-- A text. -/
  | text (s : String)
  /-- A whole number. -/
  | whole (n : Int)
  /-- A float. -/
  | real (x : Float)
  /-- A truth value. -/
  | flag (b : Bool)
  /-- A list. -/
  | list (items : List Value)
  /-- A table: values with names. -/
  | table (members : List (String × Value))

/-- The whole number of 64 bits with a sign that a text denotes. -/
def whole? (t : Text) : Option Int :=
  (Decimal.integer? t).filter fun n => Int64.minValue.toInt ≤ n && n ≤ Int64.maxValue.toInt

/-- The count of 64 bits that a text denotes. It has no minus sign. -/
def count? (t : Text) : Option Nat :=
  if t.head? = some '-' then none
  else ((Decimal.integer? t).map Int.toNat).filter (· < UInt64.size)

/-- The truth value that a word stands for, in any case of its letters. -/
def flag? (word : String) : Option Bool :=
  match word.map Char.toLower with
  | "true" | "on" | "yes" => some true
  | "false" | "off" | "no" => some false
  | _ => none

namespace Value

/-- The value as a truth value. -/
def toFlag? : Value → Option Bool
  | text "1" => some true
  | text "0" => some false
  | text s => flag? s
  | whole n => some (n ≠ 0)
  | real x => some (x != 0)
  | flag b => some b
  | nothing | list _ | table _ => none

/-- The value as a count. A float is rounded, and one out of range gives the nearest count. -/
def toCount? : Value → Option Nat
  | text s => (flag? s).map Bool.toNat <|> count? s.toList
  | whole n => if n < 0 then none else some n.toNat
  | real x => some x.round.toUInt64.toNat
  | flag b => some b.toNat
  | nothing | list _ | table _ => none

/-- The value as a text. -/
def toText? : Value → Option String
  | text s => some s
  | whole n => some (toString n)
  | real x => some (Decimal.display x)
  | flag b => some (toString b)
  | nothing | list _ | table _ => none

/-- The value as something that may be missing. -/
def optional? {α : Type} (read : Value → Option α) : Value → Option (Option α)
  | nothing => some none
  | v => (read v).map some

/-- The value as a list of texts. -/
def toTexts? : Value → Option (List String)
  | list items => items.mapM toText?
  | _ => none

end Value

end QuantityCalc.Settings
