import QuantityCalc.Text.Basic

/-!
# Places in a text

A `Cursor` is a place between two characters of a text: the number of bytes before it and the
characters after it. Readers move it forward and report its position in their errors.
-/

namespace QuantityCalc

/-- A place in a text. -/
structure Cursor where
  /-- The number of bytes before the place. -/
  position : Nat
  /-- The text after the place. -/
  rest : Text
deriving DecidableEq

namespace Cursor

/-- The place in front of a text. -/
def start (t : Text) : Cursor := ⟨0, t⟩

/-- The place in front of `rest`, which is an end of the text after `c`. -/
def moveTo (c : Cursor) (rest : Text) : Cursor :=
  ⟨c.position + Text.bytes (c.rest.take (c.rest.length - rest.length)), rest⟩

/-- The place behind the white space that follows `c`. -/
def skipBlanks (c : Cursor) : Cursor := c.moveTo (Text.trimStart c.rest)

/-- The place behind `lead`, if the text goes on with it. -/
def eat? (c : Cursor) (lead : Text) : Option Cursor := (Text.dropLead? lead c.rest).map c.moveTo

@[simp] theorem rest_start (t : Text) : (start t).rest = t := rfl

@[simp] theorem position_start (t : Text) : (start t).position = 0 := rfl

@[simp] theorem rest_moveTo (c : Cursor) (t : Text) : (c.moveTo t).rest = t := rfl

@[simp] theorem rest_skipBlanks (c : Cursor) : c.skipBlanks.rest = Text.trimStart c.rest := rfl

theorem position_moveTo {c : Cursor} {used rest : Text} (h : c.rest = used ++ rest) :
    (c.moveTo rest).position = c.position + Text.bytes used := by
  simp [moveTo, h]

end Cursor

end QuantityCalc
