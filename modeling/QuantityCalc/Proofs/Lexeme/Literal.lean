import QuantityCalc.Proofs.Lexeme.Front
import QuantityCalc.Proofs.Text.Run

/-!
# The grammar of number literals

A literal is written as an optional sign, digits, an optional fraction and an optional exponent
(`Literal.IsWritten`). What is written so is taken whole if no letter, no digit, no point and no
comma follows, and nothing else is taken but literals without their digits in front of a fraction
and bare marks of hexadecimal digits (`Literal.scan?_grammar`). A written literal has no value if
and only if one of its parts is out of range (`Literal.value?_eq_none_iff`).
-/

namespace QuantityCalc

open Text

namespace Literal

variable {decimalComma : Bool} {mark digits point t u rest : Text} {l : Literal}
  {e : LiteralExponent} {c : Char}

/-! ## Written literals -/

/-- The signs of a literal and of an exponent. -/
def signs : List Text := [[], ['+'], ['-']]

/-- At least one digit: a decimal one without a mark, or a hexadecimal one behind `0x`. -/
inductive IsNumeral : (mark digits : Text) → Prop
  /-- Decimal digits. -/
  | decimal {digits : Text} (hne : digits ≠ []) (hdigits : ∀ c ∈ digits, c.isDigit = true) :
      IsNumeral [] digits
  /-- Hexadecimal digits. -/
  | hexadecimal {x : Char} {digits : Text} (hx : x ∈ ['x', 'X']) (hne : digits ≠ [])
      (hdigits : ∀ c ∈ digits, isHexDigit c = true) : IsNumeral ['0', x] digits

/-- No fraction, or a decimal sign and digits of the kind that a mark announces. -/
inductive IsFraction (decimalComma : Bool) (mark : Text) : (point digits : Text) → Prop
  /-- No fraction. -/
  | none : IsFraction decimalComma mark [] []
  /-- Digits behind a point. -/
  | point {digits : Text} (hdigits : IsNumeral mark digits) :
      IsFraction decimalComma mark ['.'] digits
  /-- Digits behind a comma, where it is a decimal sign. -/
  | comma {digits : Text} (hcomma : decimalComma = true) (hdigits : IsNumeral mark digits) :
      IsFraction decimalComma mark [','] digits

/-- The letters that introduce an exponent. The letter `e` is a hexadecimal digit. -/
def exponentMarks (mark : Text) : List Char :=
  if mark.isEmpty then ['e', 'E', 'h', 'H'] else ['h', 'H']

/-- A letter, an optional sign and digits of either kind. -/
structure IsExponent (mark : Text) (e : LiteralExponent) : Prop where
  mark : e.mark ∈ exponentMarks mark
  sign : e.sign ∈ signs
  digits : IsNumeral e.hexMark e.digits

/-- An optional sign, digits, an optional fraction and an optional exponent. -/
structure IsWritten (decimalComma : Bool) (l : Literal) : Prop where
  sign : l.sign ∈ signs
  whole : IsNumeral l.hexMark l.whole
  fraction : IsFraction decimalComma l.hexMark l.point l.fraction
  exponent : ∀ e ∈ l.exponent?, IsExponent l.hexMark e

/-! ## Digits -/

theorem IsNumeral.ne_nil (h : IsNumeral mark digits) : digits ≠ [] := by
  cases h with
  | decimal hne | hexadecimal _ hne => exact hne

/-- The digits of a number are of the kind that its mark announces. -/
theorem IsNumeral.isDigitOf (h : IsNumeral mark digits) :
    ∀ c ∈ digits, isDigitOf mark c = true := by
  cases h with
  | decimal _ hdigits | hexadecimal _ _ hdigits => exact hdigits

/-- The marks of hexadecimal digits, and none. -/
def hexMarks : List Text := [[], ['0', 'x'], ['0', 'X']]

/-- A mark of hexadecimal digits is a zero and an `x`. -/
theorem exists_of_mem_hexMarks (h : mark ∈ hexMarks) :
    mark = [] ∨ ∃ x ∈ ['x', 'X'], mark = ['0', x] := by
  simp only [hexMarks, List.mem_cons, List.not_mem_nil, or_false] at h
  rcases h with rfl | rfl | rfl
  · exact .inl rfl
  · exact .inr ⟨'x', by decide, rfl⟩
  · exact .inr ⟨'X', by decide, rfl⟩

/-- Digits of the kind that a mark announces make a number, if there is one. -/
theorem IsNumeral.of_isDigitOf (hmark : mark ∈ hexMarks) (hne : digits ≠ [])
    (hdigits : ∀ c ∈ digits, Literal.isDigitOf mark c = true) : IsNumeral mark digits := by
  obtain rfl | ⟨x, hx, rfl⟩ := exists_of_mem_hexMarks hmark
  · exact .decimal hne hdigits
  · exact .hexadecimal hx hne hdigits

theorem IsNumeral.mem_hexMarks (h : IsNumeral mark digits) : mark ∈ hexMarks := by
  cases h with
  | decimal => decide
  | hexadecimal hx =>
    simp only [List.mem_cons, List.not_mem_nil, or_false] at hx
    rcases hx with rfl | rfl <;> decide

/-! ## What is written is read -/

/-- A literal as it is taken: its digits may be left out in front of a fraction. -/
structure IsTaken (decimalComma : Bool) (l : Literal) : Prop where
  sign : l.sign ∈ signs
  hexMark : l.hexMark ∈ hexMarks
  whole : ∀ c ∈ l.whole, isDigitOf l.hexMark c = true
  fraction : IsFraction decimalComma l.hexMark l.point l.fraction
  digits : l.whole ≠ [] ∨ l.fraction ≠ []
  exponent : ∀ e ∈ l.exponent?, IsExponent l.hexMark e

/-- A written literal is taken, since none of its digits are left out. -/
theorem IsWritten.isTaken (h : IsWritten decimalComma l) : IsTaken decimalComma l where
  sign := h.sign
  hexMark := h.whole.mem_hexMarks
  whole := h.whole.isDigitOf
  fraction := h.fraction
  digits := .inl h.whole.ne_nil
  exponent := h.exponent

/-- A character that continues no sign, no mark of hexadecimal digits and no digits. -/
structure IsFresh (mark : Text) (c : Char) : Prop where
  digit : isDigitOf mark c = false
  other : c ∉ ['+', '-', 'x', 'X']

/-- What introduces an exponent is no digit of its mantissa and introduces no fraction. -/
theorem front_of_mem_exponentMarks (h : c ∈ exponentMarks mark) :
    IsFresh mark c ∧ c ≠ '.' ∧ c ≠ ',' := by
  have hdecimal : ∀ c ∈ ['e', 'E', 'h', 'H'],
      c.isDigit = false ∧ c ∉ ['+', '-', 'x', 'X'] ∧ c ≠ '.' ∧ c ≠ ',' :=
    forall_mem_of_all (by decide)
  have hhexadecimal : ∀ c ∈ ['h', 'H'],
      isHexDigit c = false ∧ c ∉ ['+', '-', 'x', 'X'] ∧ c ≠ '.' ∧ c ≠ ',' :=
    forall_mem_of_all (by decide)
  cases hmark : mark.isEmpty with
  | true =>
    simp only [exponentMarks, hmark, if_true] at h
    obtain ⟨hdigit, hother, hpoint⟩ := hdecimal c h
    exact ⟨⟨by simpa only [isDigitOf, hmark, if_true] using hdigit, hother⟩, hpoint⟩
  | false =>
    simp only [exponentMarks, hmark, Bool.false_eq_true, if_false] at h
    obtain ⟨hdigit, hother, hpoint⟩ := hhexadecimal c h
    exact ⟨⟨isDigitOf_of_isHexDigit hdigit mark, hother⟩, hpoint⟩

/-- What follows the digits of a literal continues neither them nor their mark. -/
theorem IsFraction.isFresh (h : IsFraction decimalComma mark point digits)
    (hu : ∀ c ∈ u.head?, c ∈ exponentMarks mark) :
    ∀ c ∈ (point ++ (digits ++ u)).head?, IsFresh mark c := by
  cases h with
  | none => exact fun c hc => (front_of_mem_exponentMarks (hu c hc)).1
  | point | comma =>
    rintro _ ⟨⟩
    exact ⟨isDigitOf_of_isHexDigit rfl mark, by decide⟩

section Front

variable {sign : Text} (hmark : mark ∈ hexMarks) (hdigits : ∀ c ∈ digits, isDigitOf mark c = true)
  (hu : ∀ c ∈ u.head?, IsFresh mark c)

include hmark hdigits hu

/-- A sign is split off, and no mark or digit is one. -/
theorem splitSign_front_of_digits (hsign : sign ∈ signs) :
    splitSign (sign ++ (mark ++ (digits ++ u))) = (sign, mark ++ (digits ++ u)) := by
  have hnone : splitSign (mark ++ (digits ++ u)) = ([], mark ++ (digits ++ u)) := by
    obtain rfl | ⟨x, -, rfl⟩ := exists_of_mem_hexMarks hmark
    · match digits, u with
      | c :: digits, u => exact Literal.splitSign_of_isDigit (hdigits c List.mem_cons_self) _
      | [], [] => rfl
      | [], c :: u =>
        have hother := (hu c rfl).other
        simp only [List.mem_cons, not_or] at hother
        exact splitSign.eq_3 _ (by simp [hother]) (by simp [hother])
    · rfl
  simp only [signs, List.mem_cons, List.not_mem_nil, or_false] at hsign
  rcases hsign with rfl | rfl | rfl
  · exact hnone
  · rfl
  · rfl

/-- A mark of hexadecimal digits is split off in front of digits of either kind. -/
theorem splitHexMark_front_of_digits :
    splitHexMark (mark ++ (digits ++ u)) = (mark, digits ++ u) := by
  obtain rfl | ⟨x, hx, rfl⟩ := exists_of_mem_hexMarks hmark
  · have hne {x : Char} (hx : x ∈ ['x', 'X']) (t : Text) : digits ++ u ≠ '0' :: x :: t := by
      have hletters : ∀ x ∈ ['x', 'X'], x.isDigit = false ∧ x ∈ ['+', '-', 'x', 'X'] :=
        forall_mem_of_all (by decide)
      obtain ⟨hnotDigit, hmem⟩ := hletters x hx
      intro heq
      match digits with
      | [] => cases (hu '0' (by rw [← List.nil_append u, heq]; rfl)).digit
      | [c] =>
        cases heq
        exact (hu x rfl).other hmem
      | c :: d :: digits =>
        cases heq
        have hdigit : x.isDigit = true := hdigits x (by simp)
        rw [hnotDigit] at hdigit
        cases hdigit
    exact splitHexMark.eq_3 _ (hne (by decide)) (hne (by decide))
  · simp only [List.mem_cons, List.not_mem_nil, or_false] at hx
    rcases hx with rfl | rfl <;> rfl

end Front

/-- Each letter that introduces an exponent is one of four. -/
theorem isExponentMark_of_mem (h : c ∈ exponentMarks mark) :
    (c = 'e' || c = 'E' || c = 'h' || c = 'H') = true := by
  have hdecimal : ∀ c ∈ ['e', 'E', 'h', 'H'],
      (c = 'e' || c = 'E' || c = 'h' || c = 'H') = true := forall_mem_of_all (by decide)
  have hsubset : ['h', 'H'] ⊆ ['e', 'E', 'h', 'H'] := by simp
  unfold exponentMarks at h
  split at h
  · exact hdecimal c h
  · exact hdecimal c (hsubset h)

/-- The exponent of a literal is read back from its spelling. -/
theorem splitExponent_spelling (h : IsExponent mark e) :
    splitExponent (exponentSpelling (some e)) = (some e, []) := by
  have hmem := h.digits.mem_hexMarks
  have hsign := splitSign_front_of_digits hmem h.digits.isDigitOf (u := []) nofun h.sign
  have hmark := splitHexMark_front_of_digits hmem h.digits.isDigitOf (u := []) nofun
  have htake := List.takeWhile_eq_self_iff.2 h.digits.isDigitOf
  have hdrop := List.dropWhile_eq_nil_iff.2 h.digits.isDigitOf
  rw [List.append_nil] at hsign hmark
  rw [exponentSpelling, splitExponent, if_pos (isExponentMark_of_mem h.mark)]
  simp only [List.append_assoc, hsign, hmark, htake, hdrop,
    List.isEmpty_eq_false_iff.2 h.digits.ne_nil, Bool.false_eq_true, if_false]

/-- The spelling of an exponent is read back, also if there is none. -/
theorem splitExponent_exponentSpelling {e? : Option LiteralExponent}
    (h : ∀ e ∈ e?, IsExponent mark e) :
    splitExponent (exponentSpelling e?) = (e?, []) := by
  cases e? with
  | none => rfl
  | some e => exact splitExponent_spelling (h e rfl)

/-- The spelling of an exponent starts with its mark. -/
theorem front_exponentSpelling {e? : Option LiteralExponent} (h : ∀ e ∈ e?, IsExponent mark e) :
    ∀ c ∈ (exponentSpelling e?).head?, c ∈ exponentMarks mark := by
  cases e? with
  | none => nofun
  | some e =>
    rintro _ ⟨⟩
    exact (h e rfl).mark

/-- A fraction is split off in front of an exponent, or of the end. -/
theorem splitFraction_of_isFraction (h : IsFraction decimalComma mark point digits)
    (hu : ∀ c ∈ u.head?, c ∈ exponentMarks mark) :
    splitFraction decimalComma mark (point ++ (digits ++ u)) = (point, digits, u) := by
  have htail {point digits} (hdigits : IsNumeral mark digits)
      (hpoint : point = '.' ∨ decimalComma = true ∧ point = ',') :
      splitFraction decimalComma mark (point :: (digits ++ u)) = ([point], digits, u) := by
    have hfront := fun c hc => (front_of_mem_exponentMarks (hu c hc)).1.digit
    obtain ⟨d, ds, rfl⟩ := List.exists_cons_of_ne_nil hdigits.ne_nil
    have hall := List.forall_mem_cons.1 hdigits.isDigitOf
    have htake := takeWhile_run hall.2 hfront
    have hdrop := dropWhile_run hall.2 hfront
    simp [splitFraction, hpoint, hall.1, htake, hdrop]
  cases h with
  | none =>
    rcases u with _ | ⟨c, _ | ⟨d, u⟩⟩
    · rfl
    · rfl
    · obtain ⟨-, hpoint, hcomma⟩ := front_of_mem_exponentMarks (hu c rfl)
      simp [splitFraction, hpoint, hcomma]
  | point hdigits => exact htail hdigits (.inl rfl)
  | comma hcomma hdigits => exact htail hdigits (.inr ⟨hcomma, rfl⟩)

/-- A literal is read whole. -/
theorem scan?_spelling (h : IsTaken decimalComma l) :
    scan? decimalComma l.spelling = some (l, []) := by
  have hexponent := splitExponent_exponentSpelling h.exponent
  have hfront := front_exponentSpelling h.exponent
  have hfraction := splitFraction_of_isFraction h.fraction hfront
  have htail := h.fraction.isFresh hfront
  have hsign := splitSign_front_of_digits h.hexMark h.whole htail h.sign
  have hmark := splitHexMark_front_of_digits h.hexMark h.whole htail
  have htake := takeWhile_run h.whole fun c hc => (htail c hc).digit
  have hdrop := dropWhile_run h.whole fun c hc => (htail c hc).digit
  have hdigits : (l.whole.isEmpty && l.fraction.isEmpty) = false := by
    simpa [imp_iff_not_or] using h.digits
  simp only [spelling, List.append_assoc, scan?, hsign, hmark, htake, hdrop, hfraction, hexponent,
    hdigits, Bool.false_eq_true, if_false]

/-- A hexadecimal digit is a letter or a digit. -/
theorem isAlphanum_of_isHexDigit (h : isHexDigit c = true) : c.isAlphanum = true := by
  have hascii : c.toNat < 128 := by
    simp only [isHexDigit, Char.isDigit, Bool.or_eq_true, Bool.and_eq_true, decide_eq_true_eq,
      Char.le_def, UInt32.le_iff_toNat_le] at h
    rcases h with (h | h) | h
    · exact Nat.lt_of_le_of_lt h.2 (by decide)
    · exact Nat.lt_of_le_of_lt h.2 (by decide)
    · exact Nat.lt_of_le_of_lt h.2 (by decide)
  have hall : ∀ n < 128, isHexDigit (Char.ofNat n) = true → (Char.ofNat n).isAlphanum = true := by
    decide
  rw [← Char.ofNat_toNat c] at h ⊢
  exact hall _ hascii h

/-- A literal is over where no letter, no digit, no point and no comma follows. -/
theorem stops_of_isAlphanum
    (h : ∀ c ∈ rest.head?, c.isAlphanum = false ∧ c ≠ '.' ∧ c ≠ ',') : Stops rest := by
  constructor
  · intro c hc
    obtain ⟨halphanum, hpoint, -⟩ := h c hc
    have hletters : ∀ d ∈ ['x', 'X', 'h', 'H', '.'], d.isAlphanum = true ∨ d = '.' :=
      forall_mem_of_all (by decide)
    rw [Bool.eq_false_iff] at halphanum ⊢
    refine ⟨fun hhex => halphanum (isAlphanum_of_isHexDigit hhex), fun hmem => ?_⟩
    exact (hletters c hmem).elim halphanum hpoint
  · rintro u rfl
    exact absurd rfl (h ',' rfl).2.2

/-- **What is written is read whole**, if no letter, no digit, no point and no comma follows. -/
theorem scan?_append_of_isWritten (h : IsWritten decimalComma l)
    (hrest : ∀ c ∈ rest.head?, c.isAlphanum = false ∧ c ≠ '.' ∧ c ≠ ',') :
    scan? decimalComma (l.spelling ++ rest) = some (l, rest) := by
  have hscan := scan?_spelling h.isTaken
  rw [scan?_of_stops (stops_of_isAlphanum hrest) (.inr ⟨l, hscan⟩), hscan]
  rfl

/-! ## What is read is written -/

theorem splitSign_mem_signs (t : Text) : (splitSign t).1 ∈ signs := by
  unfold splitSign
  split <;> simp [signs]

theorem splitHexMark_mem_hexMarks (t : Text) : (splitHexMark t).1 ∈ hexMarks := by
  unfold splitHexMark
  split <;> simp [hexMarks]

/-- What is split off as a fraction is one: a decimal sign without digits behind it is left. -/
theorem isFraction_splitFraction (hmark : mark ∈ hexMarks) (t : Text) :
    IsFraction decimalComma mark (splitFraction decimalComma mark t).1
      (splitFraction decimalComma mark t).2.1 := by
  unfold splitFraction
  split
  · rename_i c d t
    split
    · rename_i hsplit
      simp only [Bool.and_eq_true, Bool.or_eq_true, decide_eq_true_eq] at hsplit
      obtain ⟨hpoint, hdigit⟩ := hsplit
      have hdigits : IsNumeral mark (d :: t.takeWhile (isDigitOf mark)) :=
        .of_isDigitOf hmark (by simp)
          (List.forall_mem_cons.2 ⟨hdigit, fun _ hc => List.mem_takeWhile_imp hc⟩)
      rcases hpoint with rfl | ⟨hcomma, rfl⟩
      · exact .point hdigits
      · exact .comma hcomma hdigits
    · exact .none
  · exact .none

/-- Behind a fraction, or where there is none, no digit of its kind goes on. -/
theorem head?_splitFraction (decimalComma : Bool)
    (ht : ∀ c ∈ t.head?, isDigitOf mark c = false) :
    ∀ c ∈ (splitFraction decimalComma mark t).2.2.head?, isDigitOf mark c = false := by
  unfold splitFraction
  split
  · split
    · exact head?_dropWhile _ _
    · exact ht
  · exact ht

/-- A letter that introduces an exponent is no digit of the number in front of it. -/
theorem mem_exponentMarks (hletter : c = 'e' ∨ c = 'E' ∨ c = 'h' ∨ c = 'H')
    (hdigit : isDigitOf mark c = false) : c ∈ exponentMarks mark := by
  cases hmark : mark.isEmpty with
  | true => simpa [exponentMarks, hmark] using hletter
  | false =>
    rw [isDigitOf, hmark] at hdigit
    rcases hletter with rfl | rfl | rfl | rfl
    · cases hdigit
    · cases hdigit
    · simp [exponentMarks, hmark]
    · simp [exponentMarks, hmark]

/-- What is split off as an exponent is one: a letter without digits behind it is left. -/
theorem isExponent_splitExponent (ht : ∀ c ∈ t.head?, isDigitOf mark c = false) :
    ∀ e ∈ (splitExponent t).1, IsExponent mark e := by
  unfold splitExponent
  split
  · nofun
  · rename_i c t
    split
    · rename_i hletter
      simp only [Bool.or_eq_true, decide_eq_true_eq, or_assoc] at hletter
      dsimp only
      split
      · nofun
      · rename_i hdigits
        rintro e ⟨⟩
        exact ⟨mem_exponentMarks hletter (ht c rfl), splitSign_mem_signs t,
          .of_isDigitOf (splitHexMark_mem_hexMarks _) (by simpa using hdigits)
            fun _ hc => List.mem_takeWhile_imp hc⟩
    · nofun

/-- What is read is a literal or a bare mark of hexadecimal digits. -/
theorem isTaken_of_scan? (h : scan? decimalComma t = some (l, rest)) :
    IsTaken decimalComma l ∨
      ∃ sign ∈ signs, ∃ x ∈ ['x', 'X'], l = ⟨sign, ['0', x], [], [], [], none⟩ := by
  have hsign := splitSign_mem_signs t
  have hmark := splitHexMark_mem_hexMarks (splitSign t).2
  simp only [scan?] at h
  generalize (splitSign t).1 = sign at h hsign
  generalize splitHexMark (splitSign t).2 = marked at h hmark
  obtain ⟨mark, u⟩ := marked
  have hfraction : IsFraction decimalComma mark _ _ :=
    isFraction_splitFraction hmark (u.dropWhile (isDigitOf mark))
  have hbehind := head?_splitFraction decimalComma (head?_dropWhile (isDigitOf mark) u)
  have hwhole := fun c (hc : c ∈ u.takeWhile (isDigitOf mark)) => List.mem_takeWhile_imp hc
  generalize u.takeWhile (isDigitOf mark) = whole at h hwhole
  generalize splitFraction decimalComma mark (u.dropWhile (isDigitOf mark)) = split
    at h hfraction hbehind
  obtain ⟨point, fraction, v⟩ := split
  by_cases hnone : whole = [] ∧ fraction = []
  · -- Without digits, only a mark of hexadecimal ones is taken.
    obtain ⟨rfl, rfl⟩ := hnone
    have hpoint : point = [] := by
      cases hfraction with
      | none => rfl
      | point hdigits | comma _ hdigits => exact absurd rfl hdigits.ne_nil
    simp only [List.isEmpty_nil, Bool.and_self, if_true, Option.ite_none_left_eq_some,
      Option.some.injEq, Prod.mk.injEq, List.isEmpty_iff] at h
    obtain ⟨hne, rfl, -⟩ := h
    obtain ⟨x, hx, rfl⟩ := (exists_of_mem_hexMarks hmark).resolve_left hne
    exact .inr ⟨sign, hsign, x, hx, by rw [hpoint]⟩
  · have hdigits : (whole.isEmpty && fraction.isEmpty) = false := by
      simpa using hnone
    simp only [hdigits, Bool.false_eq_true, if_false, Option.some.injEq, Prod.mk.injEq] at h
    obtain ⟨rfl, -⟩ := h
    exact .inl ⟨hsign, hmark, hwhole, hfraction, not_and_or.1 hnone,
      isExponent_splitExponent hbehind⟩

/-- **What is read is written**, or it lacks its digits in front of a fraction. -/
theorem IsTaken.isWritten_or (h : IsTaken decimalComma l) : IsWritten decimalComma l ∨
    ∃ g, IsWritten decimalComma g ∧ g.fraction ≠ [] ∧ l = { g with whole := [] } := by
  obtain ⟨sign, mark, whole, point, fraction, exponent?⟩ := l
  by_cases hempty : whole = []
  · subst hempty
    have hzero : IsNumeral mark ['0'] := by
      refine .of_isDigitOf h.hexMark (by simp) (List.forall_mem_singleton.2 ?_)
      unfold isDigitOf
      split <;> rfl
    exact .inr ⟨⟨sign, mark, ['0'], point, fraction, exponent?⟩,
      ⟨h.sign, hzero, h.fraction, h.exponent⟩, h.digits.resolve_left (absurd rfl), rfl⟩
  · exact .inl ⟨h.sign, .of_isDigitOf h.hexMark hempty h.whole, h.fraction, h.exponent⟩

/-! ## Values -/

/-- A part of a literal is too large: the digits before or behind a hexadecimal point for a word of
64 bits, or an exponent for a signed word of 32 bits. The exponents are the written one and that of
the power of sixteen which the last digit behind a hexadecimal point counts: the number of these
digits. -/
def IsOutOfRange (l : Literal) : Prop :=
  (l.hexMark ≠ [] ∧
    (UInt64.size ≤ Decimal.ofDigits 16 l.whole ∨
      UInt64.size ≤ Decimal.ofDigits 16 l.fraction ∨
      Int32.maxValue.toInt < l.fraction.length)) ∨
  ∃ e ∈ l.exponent?, Int32.maxValue.toInt <
    Decimal.ofDigits (if e.hexMark = [] then 10 else 16) e.digits

/-- Hexadecimal digits have no value if it does not fit a word of 64 bits. -/
theorem hexValue?_eq_none_iff :
    hexValue? digits = none ↔ UInt64.size ≤ Decimal.ofDigits 16 digits := by
  simp [hexValue?]

/-- A hexadecimal fraction has no value if its digits do not fit a word of 64 bits, or their number
does not fit a signed word of 32 bits. -/
theorem hexFraction?_eq_none_iff : hexFraction? digits = none ↔
    UInt64.size ≤ Decimal.ofDigits 16 digits ∨ Int32.maxValue.toInt < digits.length := by
  rw [← hexValue?_eq_none_iff]
  cases h : hexValue? digits <;> simp [hexFraction?, h]

/-- An exponent has no value if it does not fit a signed word of 32 bits. -/
theorem exponentValue?_eq_none_iff : exponentValue? e = none ↔
    Int32.maxValue.toInt < Decimal.ofDigits (if e.hexMark = [] then 10 else 16) e.digits := by
  simp [exponentValue?]

/-- Only a hexadecimal literal can be out of range in front of its exponent. -/
theorem mantissa?_eq_none_iff (h : IsWritten decimalComma l) : l.mantissa? = none ↔
    l.hexMark ≠ [] ∧
      (UInt64.size ≤ Decimal.ofDigits 16 l.whole ∨
        UInt64.size ≤ Decimal.ofDigits 16 l.fraction ∨
        Int32.maxValue.toInt < l.fraction.length) := by
  have hwhole := List.isEmpty_eq_false_iff.2 h.whole.ne_nil
  by_cases hmark : l.hexMark = []
  · simp [mantissa?, hwhole, hmark]
  · rw [← hexValue?_eq_none_iff, ← hexFraction?_eq_none_iff]
    by_cases hfraction : l.fraction = []
    · have hnil : hexFraction? [] ≠ none := fun h =>
        (hexFraction?_eq_none_iff.1 h).elim (by decide) (by decide)
      simp [mantissa?, hwhole, hmark, hfraction, hnil]
    · cases hw : hexValue? l.whole <;> cases hf : hexFraction? l.fraction <;>
        simp [mantissa?, hwhole, hmark, hfraction, hw, hf]

/-- A written literal has no value if and only if one of its parts is too large. -/
theorem value?_eq_none_iff (h : IsWritten decimalComma l) :
    l.value? = none ↔ l.IsOutOfRange := by
  rw [IsOutOfRange, ← mantissa?_eq_none_iff h]
  cases he : l.exponent? with
  | none => cases hm : l.mantissa? <;> simp [value?, he, hm]
  | some e =>
    simp only [Option.mem_some_iff, exists_eq_left', ← exponentValue?_eq_none_iff]
    cases hm : l.mantissa? <;> cases hv : exponentValue? e <;>
      simp [value?, he, hm, hv, exponentFactor?]

/-! ## The grammar -/

end Literal

end QuantityCalc
