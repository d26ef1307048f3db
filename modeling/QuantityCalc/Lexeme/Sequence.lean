import QuantityCalc.Lexeme.Basic
import QuantityCalc.Text.Cursor

/-!
# Sequences of lexemes

White space before a lexeme is skipped. A character that starts no lexeme is an error for a strict
reader; for any other the sequence just ends before it.
-/

namespace QuantityCalc.Lexeme

/-- How lexemes are read. -/
structure Manner where
  /-- Whether a character that starts no lexeme is an error. -/
  strict : Bool
  /-- Whether a comma before a digit is a decimal sign. -/
  decimalComma : Bool

/-- The next lexeme, if there is one, and the place behind it. -/
def next (m : Manner) (c : Cursor) : Except Error (Option Lexeme) × Cursor :=
  let c := c.skipBlanks
  match scan m.decimalComma c.rest with
  | .ok (some (l, rest)) => (.ok (some l), c.moveTo rest)
  | .ok none =>
    match c.rest with
    | [] => (.ok none, c)
    | found :: _ =>
      if m.strict then (.error (.unexpectedChar c.position found), c) else (.ok none, c)
  | .error breach => (.error (.internal breach), c)

theorem next_eq (m : Manner) (c : Cursor) : next m c =
    let c := c.skipBlanks
    match scan? m.decimalComma c.rest with
    | some (l, rest) => (.ok (some l), c.moveTo rest)
    | none =>
      match c.rest with
      | [] => (.ok none, c)
      | found :: _ =>
        if m.strict then (.error (.unexpectedChar c.position found), c) else (.ok none, c) := by
  simp only [next, scan_eq_ok]
  cases scan? m.decimalComma c.skipBlanks.rest <;> rfl

theorem length_lt_of_next {m : Manner} {c c' : Cursor} {l : Lexeme}
    (h : next m c = (.ok (some l), c')) : c'.rest.length < c.rest.length := by
  have hs := (Text.trimStart_suffix c.rest).length_le
  simp only [next_eq, Cursor.rest_skipBlanks] at h
  split at h
  · rename_i hl
    simp only [Prod.mk.injEq] at h
    obtain ⟨-, rfl⟩ := h
    have := length_lt_of_scan? hl
    simp only [Cursor.rest_moveTo]
    omega
  · split at h
    · simp at h
    · split at h <;> simp at h

/-- The lexemes of a text. -/
structure Sequence where
  /-- The lexemes, each with the position behind it. -/
  lexemes : List (Lexeme × Nat)
  /-- The error that ended the sequence, if one did. -/
  failure? : Option Error
  /-- The place behind the last lexeme and the white space after it. -/
  place : Cursor

/-- All lexemes behind a place. -/
def sequence (m : Manner) (c : Cursor) : Sequence :=
  match h : next m c with
  | (.ok (some l), c') =>
    have := length_lt_of_next h
    let s := sequence m c'
    { s with lexemes := (l, c'.position) :: s.lexemes }
  | (.ok none, c') => ⟨[], none, c'⟩
  | (.error e, c') => ⟨[], some e, c'⟩
termination_by c.rest.length

end QuantityCalc.Lexeme
