import QuantityCalc.Proofs.Text.Forward

/-!
# Places in a text

A place in a text is a boundary between two of its characters: `t.At position rest` says that `rest`
is what `t` has behind its first `position` bytes. A cursor that starts in front of a text and moves
to ends of what is left of it is at such a place (`Cursor.In`). Places in a part of a text are
places in the text (`Text.At.trans`).
-/

namespace QuantityCalc

variable {t u rest : Text} {p q : Nat}

namespace Text

/-- What a text has behind its first bytes, at a boundary between two characters. -/
def At (t : Text) (position : Nat) (rest : Text) : Prop :=
  ∃ front, t = front ++ rest ∧ position = bytes front

theorem bytes_pos (h : t ≠ []) : 0 < bytes t := by
  obtain ⟨c, t, rfl⟩ := List.exists_cons_of_ne_nil h
  exact Nat.add_pos_left c.utf8Size_pos _

theorem at_append (front rest : Text) : At (front ++ rest) (bytes front) rest := ⟨front, rfl, rfl⟩

theorem at_zero (t : Text) : t.At 0 t := at_append [] t

theorem At.suffix (h : t.At p rest) : rest <:+ t := by
  obtain ⟨front, rfl, -⟩ := h
  exact List.suffix_append front rest

/-- A place in a text is one behind so many of its characters. -/
theorem At.exists_take (h : t.At p rest) :
    ∃ n ≤ t.length, p = bytes (t.take n) ∧ rest = t.drop n := by
  obtain ⟨front, rfl, rfl⟩ := h
  exact ⟨front.length, by simp, by simp, by simp⟩

/-- A place in a part of a text is a place in the text. -/
theorem At.trans (h : t.At p u) (h' : u.At q rest) : t.At (p + q) rest := by
  obtain ⟨front, rfl, rfl⟩ := h
  obtain ⟨mid, rfl, rfl⟩ := h'
  exact ⟨front ++ mid, (List.append_assoc _ _ _).symm, (bytes_append front mid).symm⟩

/-- The place of an end of a text is told by the number of its bytes. -/
theorem at_of_suffix (h : rest <:+ t) : t.At (bytes t - bytes rest) rest := by
  obtain ⟨front, rfl⟩ := h
  rw [bytes_append, Nat.add_sub_cancel]
  exact at_append front rest

end Text

namespace Cursor

variable {c d : Cursor}

/-- A cursor is at a place in a text. -/
def In (c : Cursor) (t : Text) : Prop := t.At c.position c.rest

theorem in_start (t : Text) : (start t).In t := Text.at_zero t

theorem In.moveTo (h : c.In t) (hrest : rest <:+ c.rest) : (c.moveTo rest).In t := by
  obtain ⟨used, hused⟩ := hrest
  rw [In, position_moveTo hused.symm, rest_moveTo]
  refine h.trans ?_
  rw [← hused]
  exact Text.at_append used rest

theorem In.skipBlanks (h : c.In t) : c.skipBlanks.In t := h.moveTo (Text.trimStart_suffix c.rest)

theorem In.eat? {lead : Text} (h : c.In t) (hd : c.eat? lead = some d) : d.In t := by
  have hsuffix := suffix_of_eat? hd
  obtain ⟨rest, -, rfl⟩ := Option.map_eq_some_iff.1 hd
  exact h.moveTo hsuffix

end Cursor

end QuantityCalc
