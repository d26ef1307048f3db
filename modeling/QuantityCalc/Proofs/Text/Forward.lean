import QuantityCalc.Command.Keyword
import QuantityCalc.Session.Names
import QuantityCalc.Text.Cursor

/-!
# Going forward

What readers leave of a text is an end of it. If they have read something, it is a proper end
(`Text.IsBehind`). A place that moves forward stays in its text (`Cursor.extent`).
-/

namespace QuantityCalc

variable {t rest mid : Text}

namespace Text

/-- A text is a proper end of another one. -/
structure IsBehind (rest t : Text) : Prop where
  suffix : rest <:+ t
  length_lt : rest.length < t.length

namespace IsBehind

/-- What is left of a proper end is a proper end. -/
theorem of_suffix (h : rest <:+ mid) (h' : mid.IsBehind t) : rest.IsBehind t :=
  ⟨h.trans h'.suffix, Nat.lt_of_le_of_lt h.length_le h'.length_lt⟩

theorem trans_suffix (h : rest.IsBehind mid) (h' : mid <:+ t) : rest.IsBehind t :=
  ⟨h.suffix.trans h', Nat.lt_of_lt_of_le h.length_lt h'.length_le⟩

/-- Something in front of a text makes a proper end of it. -/
theorem of_append {used : Text} (h : t = used ++ rest) (hused : used ≠ []) : rest.IsBehind t := by
  refine ⟨h ▸ List.suffix_append _ _, ?_⟩
  have hpos := List.length_pos_iff.2 hused
  rw [h, List.length_append]
  omega

theorem tail (c : Char) (t : Text) : IsBehind t (c :: t) :=
  ⟨List.suffix_cons c t, Nat.lt_succ_self t.length⟩

end IsBehind

theorem isBehind_of_trimStart {c : Char} (h : trimStart t = c :: rest) : rest.IsBehind t :=
  (IsBehind.tail c rest).trans_suffix (h ▸ trimStart_suffix t)

theorem isBehind_of_cut? {c : Char} {before : Text} (h : cut? c t = some (before, rest)) :
    rest.IsBehind t := by
  rw [(eq_append_of_cut? h).1]
  exact (IsBehind.tail c rest).trans_suffix (List.suffix_append _ _)

end Text

theorem Cursor.eat?_self {c : Cursor} {x : Char} (h : c.rest = x :: t) :
    c.eat? [x] = some (c.moveTo t) := by
  simp [Cursor.eat?, h, Text.dropLead?]

theorem Cursor.eat?_other {c : Cursor} {x y : Char} (h : c.rest = y :: t) (hne : x ≠ y) :
    c.eat? [x] = none := by
  simp [Cursor.eat?, h, Text.dropLead?, hne]

/-- What is eaten stands in front of what is left. -/
theorem Cursor.eq_append_of_eat? {c d : Cursor} {lead : Text} (h : c.eat? lead = some d) :
    c.rest = lead ++ d.rest := by
  obtain ⟨rest, hrest, rfl⟩ := Option.map_eq_some_iff.1 h
  exact Text.dropLead?_eq_some_iff.1 hrest

theorem Cursor.suffix_of_eat? {c d : Cursor} {lead : Text} (h : c.eat? lead = some d) :
    d.rest <:+ c.rest :=
  eq_append_of_eat? h ▸ List.suffix_append _ _

theorem Cursor.isBehind_of_eat? {c d : Cursor} {lead : Text} (h : c.eat? lead = some d)
    (hlead : lead ≠ []) : d.rest.IsBehind c.rest :=
  .of_append (eq_append_of_eat? h) hlead

namespace Cursor

/-- The number of bytes of the text in which a place is. -/
def extent (c : Cursor) : Nat := c.position + Text.bytes c.rest

@[simp] theorem extent_start (t : Text) : (start t).extent = Text.bytes t := Nat.zero_add _

theorem extent_moveTo {c : Cursor} (h : t <:+ c.rest) : (c.moveTo t).extent = c.extent := by
  obtain ⟨used, hused⟩ := h
  rw [extent, position_moveTo hused.symm, rest_moveTo, extent, ← hused, Text.bytes_append,
    Nat.add_assoc]

@[simp] theorem extent_skipBlanks (c : Cursor) : c.skipBlanks.extent = c.extent :=
  extent_moveTo (Text.trimStart_suffix c.rest)

/-- At the end of its text, a place is as far as the text is long. -/
theorem position_eq_extent {c : Cursor} (h : c.rest = []) : c.position = c.extent := by
  rw [extent, h]
  rfl

end Cursor

/-! ## Names -/

/-- Every lexeme has at least one character. -/
theorem Lexeme.isBehind_of_scan? {decimalComma : Bool} {l : Lexeme}
    (h : scan? decimalComma t = some (l, rest)) : rest.IsBehind t :=
  .of_append (spelling_append_of_scan? h).symm (spelling_ne_nil_of_scan? h)

namespace Name

theorem isBehind_of_scan? {word : Text} (h : scan? t = some (word, rest)) : rest.IsBehind t :=
  .of_append (eq_append_of_scan? h).1 (eq_append_of_scan? h).2

/-- The segments of a path are followed by an end of the text. -/
theorem segmentsFrom_suffix (t : Text) : (segmentsFrom t).2 <:+ t := by
  induction hn : t.length using Nat.strongRecOn generalizing t with
  | ind n ih =>
    unfold segmentsFrom
    split
    · rename_i t'
      split
      · rename_i word rest hscan
        have hbehind := (isBehind_of_scan? hscan).trans_suffix (List.suffix_cons '.' t')
        exact (ih rest.length (hn ▸ hbehind.length_lt) rest rfl).trans hbehind.suffix
      · exact List.suffix_refl _
    · exact List.suffix_refl _

/-- Every path has at least one character. -/
theorem isBehind_of_path? {path : String} (h : path? t = some (path, rest)) : rest.IsBehind t := by
  obtain ⟨⟨word, behind⟩, hscan, h⟩ := Option.bind_eq_some_iff.1 h
  cases h
  have hbehind := (isBehind_of_scan? hscan).trans_suffix (Text.trimStart_suffix t)
  exact .of_suffix (segmentsFrom_suffix behind) hbehind

/-- Every assignment has at least a name and a sign. -/
theorem isBehind_of_assignment? {path : String} (h : assignment? t = some (path, rest)) :
    rest.IsBehind t := by
  obtain ⟨⟨path', behind⟩, hpath, h⟩ := Option.bind_eq_some_iff.1 h
  simp only at h
  split at h
  · cases h
  · rename_i htrim
    cases h
    exact .of_suffix (Text.isBehind_of_trimStart htrim).suffix (isBehind_of_path? hpath)
  · cases h

end Name

theorem Keyword.isBehind_of_scan? {k : Keyword} (h : scan? t = some (k, rest)) :
    rest.IsBehind t := by
  obtain ⟨⟨word, behind⟩, hscan, h⟩ := Option.bind_eq_some_iff.1 h
  obtain ⟨k', -, h⟩ := Option.bind_eq_some_iff.1 h
  cases h
  exact Name.isBehind_of_scan? hscan

namespace Session

/-- Whatever a path leads to, the rest of the text is an end of it. -/
theorem follow_suffix (s : Session) (path last : String) (m? : Option Meaning) (t : Text) :
    (s.follow path last m? t).rest <:+ t := by
  induction hn : t.length using Nat.strongRecOn generalizing path last m? t with
  | ind n ih =>
    unfold follow
    split
    · rename_i t' m
      split
      · split
        · rename_i word rest hscan
          have hbehind := (Name.isBehind_of_scan? hscan).trans_suffix (List.suffix_cons '.' t')
          exact (ih rest.length (hn ▸ hbehind.length_lt) _ _ _ rest rfl).trans hbehind.suffix
        · exact List.suffix_refl _
      · exact List.suffix_refl _
    · exact List.suffix_refl _

theorem resolve_suffix (s : Session) (name : String) (t : Text) : (s.resolve name t).rest <:+ t :=
  follow_suffix s name name _ t

end Session

end QuantityCalc
