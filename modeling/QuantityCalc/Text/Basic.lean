/-!
# Texts

A text is read from its front, so it is a list of characters. Positions in it count bytes of its
UTF-8 form.

White space are the characters with the Unicode property `White_Space`. A class of characters that a
standard defines is a list of closed ranges of code points.
-/

namespace QuantityCalc

/-- A text that is read from its front. -/
abbrev Text := List Char

namespace Text

/-- The number of bytes of a text in UTF-8. -/
def bytes (t : Text) : Nat := t.foldr (fun c n => c.utf8Size + n) 0

@[simp] theorem bytes_nil : bytes [] = 0 := rfl

@[simp] theorem bytes_cons (c : Char) (t : Text) : bytes (c :: t) = c.utf8Size + bytes t :=
  rfl

@[simp] theorem bytes_append (s t : Text) : bytes (s ++ t) = bytes s + bytes t := by
  induction s with
  | nil => simp
  | cons c s ih => simp [ih, Nat.add_assoc]

/-- What follows `lead`, if the text starts with it. -/
def dropLead? : (lead t : Text) → Option Text
  | [], t => some t
  | _ :: _, [] => none
  | c :: lead, d :: t => if c = d then dropLead? lead t else none

theorem dropLead?_eq_some_iff {lead t rest : Text} :
    dropLead? lead t = some rest ↔ t = lead ++ rest := by
  induction lead generalizing t with
  | nil => simp [dropLead?]
  | cons c lead ih =>
    cases t with
    | nil => simp [dropLead?]
    | cons d t => by_cases h : c = d <;> simp [dropLead?, h, ih, eq_comm]

/-- The parts of a text before and after the first `c`. -/
def cut? (c : Char) : Text → Option (Text × Text)
  | [] => none
  | d :: t =>
    if d = c then some ([], t) else (cut? c t).map fun (before, after) => (d :: before, after)

theorem eq_append_of_cut? {c : Char} {t before after : Text} (h : cut? c t = some (before, after)) :
    t = before ++ c :: after ∧ c ∉ before := by
  induction t generalizing before with
  | nil => simp [cut?] at h
  | cons d t ih =>
    by_cases hd : d = c
    · simp only [cut?, hd, if_true, Option.some.injEq, Prod.mk.injEq] at h
      obtain ⟨rfl, rfl⟩ := h
      simp [hd]
    · simp only [cut?, hd, if_false, Option.map_eq_some_iff] at h
      obtain ⟨⟨b, a⟩, hc, hba⟩ := h
      simp only [Prod.mk.injEq] at hba
      obtain ⟨rfl, rfl⟩ := hba
      have ⟨ht, hm⟩ := ih hc
      exact ⟨by simp [ht], by simp [hm, Ne.symm hd]⟩

/-- The lines of a text. Each ends at a line feed, of which a carriage return right before it is
part; after the last line feed a line stands only if it is not empty. -/
def lines (t : Text) : List Text :=
  let pieces := t.splitOn '\n'
  let last := pieces.getLast?.getD []
  pieces.dropLast.map withoutReturn ++ (if last.isEmpty then [] else [last])
where
  /-- Drops one carriage return at the end. -/
  withoutReturn (line : Text) : Text :=
    if line.getLast? = some '\r' then line.dropLast else line

/-! ## White space -/

/-- Whether the code point of a character lies in one of the closed ranges. -/
def inRanges (ranges : List (Nat × Nat)) (c : Char) : Bool :=
  ranges.any fun (first, last) => first ≤ c.toNat && c.toNat ≤ last

/-- The ranges of white space. -/
def blankRanges : List (Nat × Nat) :=
  [(0x9, 0xD), (0x20, 0x20), (0x85, 0x85), (0xA0, 0xA0), (0x1680, 0x1680), (0x2000, 0x200A),
   (0x2028, 0x2029), (0x202F, 0x202F), (0x205F, 0x205F), (0x3000, 0x3000)]

/-- Whether a character is white space in the sense of Unicode. -/
def isBlank (c : Char) : Bool := inRanges blankRanges c

/-- The text without the white space at its front. -/
def trimStart (t : Text) : Text := t.dropWhile isBlank

/-- The text without the white space at its end. -/
def trimEnd (t : Text) : Text := (t.reverse.dropWhile isBlank).reverse

/-- The text without the white space at both ends. -/
def trim (t : Text) : Text := trimEnd (trimStart t)

theorem trimStart_suffix (t : Text) : trimStart t <:+ t := List.dropWhile_suffix _

end Text

end QuantityCalc
