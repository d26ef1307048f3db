import QuantityCalc.Text.Basic

/-!
# Readers

A `Reader` takes a value from the front of a text, or fails. An alternative starts where the failed
one did.
-/

namespace QuantityCalc

/-- Takes a value from the front of a text. -/
abbrev Reader := StateT Text Option

namespace Reader

/-- The value that a reader takes from a text, if nothing is left. -/
def whole? {α : Type} (read : Reader α) (t : Text) : Option α := do
  let (a, []) ← read.run t | none
  return a

/-- A character of a kind. -/
def char (p : Char → Bool) : Reader Char
  | c :: t => if p c then some (c, t) else none
  | [] => none

/-- A given text. -/
def word (w : Text) : Reader Unit := fun t => (Text.dropLead? w t).map ((), ·)

/-- As many characters of a kind as there are. -/
def span (p : Char → Bool) : Reader Text := fun t => some (t.takeWhile p, t.dropWhile p)

/-- At least one character of a kind. -/
def span1 (p : Char → Bool) : Reader Text := do
  let w ← span p
  if w.isEmpty then failure else return w

/-- As many values as there are. A value takes something from the text. -/
def many {α : Type} (read : Reader α) (t : Text) : Option (List α × Text) :=
  match read t with
  | some (a, rest) =>
    if rest.length < t.length then (many read rest).map fun (l, rest) => (a :: l, rest)
    else some ([], t)
  | none => some ([], t)
termination_by t.length

/-- So many values. -/
def times {α : Type} (read : Reader α) : Nat → Reader (List α)
  | 0 => return []
  | n + 1 => do return (← read) :: (← times read n)

/-- At least one value, with a separator between two. -/
def separated1 {α β : Type} (read : Reader α) (separator : Reader β) : Reader (List α) := do
  let first ← read
  let others ← many (separator *> read)
  return first :: others

/-- A value, if there is one. -/
def maybe {α : Type} (read : Reader α) : Reader (Option α) := some <$> read <|> pure none

end Reader

end QuantityCalc
