import QuantityCalc.Proofs.Lexeme.Break
import Mathlib.Data.List.TakeWhile

/-!
# Lexemes by their first characters

The kind of a lexeme is told by its first character (`Lexeme.front_of_scan?`). Digits are a number
literal (`Lexeme.scan?_digits`), the spelling of an operator is that operator
(`Lexeme.scan?_symbol`), and a name is read up to the first character that no name has
(`Lexeme.scan?_eq_name_iff`, `Name.scan?_front`).
-/

namespace QuantityCalc

open Text

variable {c : Char} {t : Text} {op : Operator}

namespace Lexeme

/-- The lexeme at the front of a text, by the first character. -/
inductive Front (decimalComma : Bool) : (t : Text) → (l : Lexeme) → (rest : Text) → Prop
  | parenOpen {t : Text} : Front decimalComma ('(' :: t) .parenOpen t
  | parenClose {t : Text} : Front decimalComma (')' :: t) .parenClose t
  | mark {c : Char} {t : Text} (hmark : isMark c = true) : Front decimalComma (c :: t) (.mark c) t
  | number {c : Char} {t rest : Text} {l : Literal} (hdigit : c.isDigit = true)
      (hscan : Literal.scan? decimalComma (c :: t) = some (l, rest)) :
      Front decimalComma (c :: t) (.number l) rest
  | name {t word rest : Text} (hscan : Name.scan? t = some (word, rest)) :
      Front decimalComma t (.name word) rest
  | operator {t rest : Text} {op : Operator} (hop : operator? t = some (op, rest)) :
      Front decimalComma t (.operator op) rest

theorem front_of_scan? {decimalComma : Bool} {t rest : Text} {l : Lexeme}
    (h : scan? decimalComma t = some (l, rest)) : Front decimalComma t l rest := by
  unfold scan? at h
  split at h
  · cases h
  · cases h
    exact .parenOpen
  · cases h
    exact .parenClose
  · split at h
    · rename_i hmark
      cases h
      exact .mark hmark
    · split at h
      · rename_i hdigit
        obtain ⟨⟨n, behind⟩, hscan, heq⟩ := Option.map_eq_some_iff.1 h
        cases heq
        exact .number hdigit hscan
      · split at h
        · obtain ⟨⟨word, behind⟩, hscan, heq⟩ := Option.map_eq_some_iff.1 h
          cases heq
          exact .name hscan
        · obtain ⟨⟨op, behind⟩, hop, heq⟩ := Option.map_eq_some_iff.1 h
          cases heq
          exact .operator hop

/-! ## Numbers -/

/-- The decimal digits. -/
def digits : List Char := "0123456789".toList

/-- A decimal digit is one of ten characters. -/
theorem mem_digits_of_isDigit (h : c.isDigit = true) : c ∈ digits := by
  have hdigits : ∀ n < 58, 48 ≤ n → Char.ofNat n ∈ digits := by decide
  simp only [Char.isDigit, Bool.and_eq_true, decide_eq_true_eq] at h
  rw [← Char.ofNat_toNat c]
  exact hdigits _ (Nat.lt_succ_of_le h.2) h.1

/-- A number starts with a digit. -/
theorem isDigit_of_scan?_eq_number {decimalComma : Bool} {c : Char} {t rest : Text}
    {l : Literal} (h : scan? decimalComma (c :: t) = some (.number l, rest)) :
    c.isDigit = true := by
  cases front_of_scan? h with
  | number hdigit => exact hdigit

/-- A number is read as a literal is. -/
theorem literal_of_scan? {decimalComma : Bool} {rest : Text} {l : Literal}
    (h : scan? decimalComma t = some (.number l, rest)) :
    Literal.scan? decimalComma t = some (l, rest) := by
  cases front_of_scan? h with
  | number _ hscan => exact hscan

/-- Without an `x`, there is no mark of hexadecimal digits. -/
theorem splitHexMark_of_notMem (hlower : 'x' ∉ t) (hupper : 'X' ∉ t) :
    Literal.splitHexMark t = ([], t) := by
  unfold Literal.splitHexMark
  split
  · exact absurd (by simp) hlower
  · exact absurd (by simp) hupper
  · rfl

theorem notMem_of_isDigit (h : ∀ d ∈ t, d.isDigit = true) (hc : c.isDigit = false) : c ∉ t := by
  intro hmem
  rw [h c hmem] at hc
  cases hc

/-- Decimal digits are a literal without a sign, a fraction and an exponent. -/
theorem literal_of_digits (hne : t ≠ []) (h : ∀ d ∈ t, d.isDigit = true) (decimalComma : Bool) :
    Literal.scan? decimalComma t = some (⟨[], [], t, [], [], none⟩, []) := by
  have hsign : Literal.splitSign t = ([], t) := by
    obtain ⟨c, t, rfl⟩ := List.exists_cons_of_ne_nil hne
    exact Literal.splitSign_of_isDigit (h c List.mem_cons_self) t
  have hmark : Literal.splitHexMark t = ([], t) :=
    splitHexMark_of_notMem (notMem_of_isDigit h rfl) (notMem_of_isDigit h rfl)
  have htake : t.takeWhile (Literal.isDigitOf []) = t := List.takeWhile_eq_self_iff.2 h
  have hdrop : t.dropWhile (Literal.isDigitOf []) = [] := List.dropWhile_eq_nil_iff.2 h
  simp [Literal.scan?, hsign, hmark, htake, hdrop, Literal.splitFraction, Literal.splitExponent,
    hne]

/-- Behind a digit at the front of a text there is a literal. -/
theorem scan?_of_isDigit (hc : c.isDigit = true) (decimalComma : Bool) (t : Text) :
    scan? decimalComma (c :: t) =
      (Literal.scan? decimalComma (c :: t)).map fun (l, rest) => (.number l, rest) := by
  have hfront : ∀ c ∈ digits, c ≠ '(' ∧ c ≠ ')' ∧ isMark c = false :=
    forall_mem_of_all (by decide)
  obtain ⟨hopen, hclose, hmark⟩ := hfront c (mem_digits_of_isDigit hc)
  simp [scan?, hmark, hc]

/-- A literal that starts with a digit is a lexeme. -/
theorem scan?_of_literal {decimalComma : Bool} {l : Literal} {rest : Text} (hc : c.isDigit = true)
    (h : Literal.scan? decimalComma (c :: t) = some (l, rest)) :
    scan? decimalComma (c :: t) = some (.number l, rest) := by
  rw [scan?_of_isDigit hc, h]
  rfl

/-- **What no literal goes on in does not change how a number is read in front of it.** -/
theorem scan?_number_front {decimalComma : Bool} {l : Literal} {rest : Text}
    (h : scan? decimalComma t = some (.number l, [])) (hrest : Literal.Stops rest) :
    scan? decimalComma (t ++ rest) = some (.number l, rest) := by
  match t with
  | c :: t =>
    have hc := isDigit_of_scan?_eq_number h
    have hliteral := literal_of_scan? h
    have hfront := Literal.scan?_of_stops hrest (.inr ⟨l, hliteral⟩)
    rw [hliteral] at hfront
    exact scan?_of_literal hc hfront

/-- Decimal digits are read as a number. -/
theorem scan?_digits (hne : t ≠ []) (h : ∀ d ∈ t, d.isDigit = true) (decimalComma : Bool) :
    scan? decimalComma t = some (.number ⟨[], [], t, [], [], none⟩, []) := by
  have hscan := literal_of_digits hne h decimalComma
  obtain ⟨c, t, rfl⟩ := List.exists_cons_of_ne_nil hne
  exact scan?_of_literal (h c List.mem_cons_self) hscan

end Lexeme

/-! ## Operators -/

/-- The characters that the spellings of operators start with. -/
def Operator.signs : List Char := "=!<>+-*/^#".toList

/-- The spelling of an operator starts with one of the signs. A slash is one of its own, so that two
of them start a comment. -/
theorem Operator.symbol_eq_cons (h : op ∈ spelled) :
    ∃ c t, op.symbol.toList = c :: t ∧ c ∈ signs ∧ (c = '/' → t = []) := by
  revert h
  cases op <;> intro h <;> first | exact ⟨_, _, rfl, by decide, by decide⟩ | simp [spelled] at h

/-- The spelling of an operator is not that of a shorter one. -/
theorem Lexeme.operator?_symbol (h : op ∈ Operator.spelled) :
    operator? op.symbol.toList = some (op, []) := by
  revert h
  cases op <;> decide

/-- No other lexeme starts as an operator does. -/
theorem Lexeme.front_of_mem_signs : ∀ c ∈ Operator.signs, c ≠ '(' ∧ c ≠ ')' ∧ isMark c = false ∧
    c.isDigit = false ∧ Name.isStart c = false :=
  forall_mem_of_all (by decide)

/-- An operator that is read has a spelling. -/
theorem Lexeme.mem_spelled_of_scan? {decimalComma : Bool} {rest : Text}
    (h : scan? decimalComma t = some (.operator op, rest)) : op ∈ Operator.spelled := by
  cases front_of_scan? h with
  | operator hop =>
    unfold operator? at hop
    split at hop
    · rename_i hsymbol
      cases hop
      exact List.mem_of_find?_eq_some hsymbol
    · obtain ⟨op', hsymbol, heq⟩ := Option.map_eq_some_iff.1 hop
      cases heq
      exact List.mem_of_find?_eq_some hsymbol

/-- **The spelling of an operator is read as that operator.**. -/
theorem Lexeme.scan?_symbol (h : op ∈ Operator.spelled) (decimalComma : Bool) :
    scan? decimalComma op.symbol.toList = some (.operator op, []) := by
  have hop := operator?_symbol h
  obtain ⟨c, t, hsym, hc, -⟩ := Operator.symbol_eq_cons h
  obtain ⟨hopen, hclose, hmark, hdigit, hstart⟩ := front_of_mem_signs c hc
  rw [hsym] at hop ⊢
  simp [scan?, hmark, hdigit, hstart, hop]

/-- A spelling of one character is read as its operator, whatever follows, if no longer spelling
starts with this character. -/
theorem Lexeme.operator?_of_alone (hop : Operator.ofSymbol? (String.ofList [c]) = some op)
    (halone : ∀ op' : Operator, op'.symbol.toList.head? = some c → op'.symbol.toList.length = 1)
    (t : Text) : operator? (c :: t) = some (op, t) := by
  match t with
  | [] => rw [operator?_single, hop, Option.map_some]
  | d :: t =>
    have hnone : Operator.ofSymbol? (String.ofList [c, d]) = none := by
      rw [Operator.ofSymbol?, List.find?_eq_none]
      intro op' _ heq
      have htext : op'.symbol.toList = [c, d] := by
        rw [of_decide_eq_true heq, String.toList_ofList]
      have hlength := halone op'
      rw [htext] at hlength
      cases hlength rfl
    rw [operator?_cons_cons, hnone, hop, Option.map_some]

/-- An operator of one character is read whatever follows, if no longer spelling starts with it. -/
theorem Lexeme.scan?_of_alone (hc : c ∈ Operator.signs)
    (hop : Operator.ofSymbol? (String.ofList [c]) = some op)
    (halone : ∀ op' : Operator, op'.symbol.toList.head? = some c → op'.symbol.toList.length = 1)
    (decimalComma : Bool) (t : Text) :
    scan? decimalComma (c :: t) = some (.operator op, t) := by
  obtain ⟨hopen, hclose, hmark, hdigit, hstart⟩ := front_of_mem_signs c hc
  simp [scan?, hmark, hdigit, hstart, operator?_of_alone hop halone t]

/-! ## Names -/

namespace Name

variable {word rest : Text}

theorem isBlank_of_isStart (h : isStart c = true) : isBlank c = false := by
  rw [Bool.eq_false_iff]
  intro hblank
  simp only [isStart, isLetter_of_isBlank hblank, Bool.false_or, Bool.or_eq_true,
    decide_eq_true_eq] at h
  rcases h with rfl | rfl <;> exact absurd hblank (by decide)

theorem isChar_of_isBlank (h : isBlank c = true) : isChar c = false := by
  have hranges : ∀ range ∈ blankRanges, ∀ k < 11, k ≤ range.2 - range.1 →
      isChar (Char.ofNat (range.1 + k)) = false := by decide +kernel
  exact of_isBlank (P := fun c => isChar c = false) hranges h

theorem isDigit_of_isStart (h : isStart c = true) : c.isDigit = false := by
  have hdigits : ∀ d ∈ Lexeme.digits, isStart d = false := forall_mem_of_all (by decide)
  rw [Bool.eq_false_iff]
  intro hdigit
  rw [hdigits c (Lexeme.mem_digits_of_isDigit hdigit)] at h
  cases h

/-- Letters are a name. -/
theorem scan?_of_isAlpha (hne : word ≠ []) (h : ∀ c ∈ word, c.isAlpha = true) :
    scan? word = some (word, []) := by
  obtain ⟨c, word, rfl⟩ := List.exists_cons_of_ne_nil hne
  have hstart : isStart c = true := by simp [isStart, isLetter_of_isAlpha (h c List.mem_cons_self)]
  have hall (d : Char) (hd : d ∈ word) : isChar d = true := by
    simp [isChar, isLetter_of_isAlpha (h d (List.mem_cons_of_mem c hd))]
  rw [scan?, if_pos hstart, List.takeWhile_eq_self_iff.2 hall, List.dropWhile_eq_nil_iff.2 hall]

/-- What is read as a name is a name. -/
theorem scan?_self (h : scan? t = some (word, rest)) : scan? word = some (word, []) := by
  match t with
  | c :: t =>
    simp only [scan?, Option.ite_none_right_eq_some, Option.some.injEq, Prod.mk.injEq] at h
    obtain ⟨hstart, rfl, -⟩ := h
    have hall : ∀ d ∈ t.takeWhile isChar, isChar d = true := fun _ hd => List.mem_takeWhile_imp hd
    rw [scan?, if_pos hstart, List.takeWhile_eq_self_iff.2 hall, List.dropWhile_eq_nil_iff.2 hall]

/-- A name is read up to the first character that no name has. -/
theorem scan?_front (h : scan? word = some (word, []))
    (hrest : ∀ c ∈ rest.head?, isChar c = false) : scan? (word ++ rest) = some (word, rest) := by
  match word with
  | c :: word =>
    simp only [scan?, Option.ite_none_right_eq_some, Option.some.injEq, Prod.mk.injEq,
      List.cons.injEq, true_and] at h
    obtain ⟨hstart, -, hword⟩ := h
    have hall : ∀ d ∈ word, isChar d = true := List.dropWhile_eq_nil_iff.1 hword
    rw [List.cons_append, scan?, if_pos hstart, takeWhile_run hall hrest, dropWhile_run hall hrest]

/-- A name starts with a letter or an underscore. -/
theorem isStart_of_scan? (h : scan? t = some (word, rest)) : ∀ c ∈ t.head?, isStart c = true := by
  match t with
  | c :: t =>
    rintro c ⟨⟩
    simp only [scan?, Option.ite_none_right_eq_some] at h
    exact h.1

end Name

namespace Lexeme

theorem isMark_of_isStart (h : Name.isStart c = true) : isMark c = false := by
  rw [Bool.eq_false_iff]
  intro hmark
  have hmem : c ∈ [',', '[', ']', ';', '{', '}', '.'] := List.contains_iff_mem.1 hmark
  simp only [List.mem_cons, List.not_mem_nil, or_false] at hmem
  rcases hmem with rfl | rfl | rfl | rfl | rfl | rfl | rfl <;> exact absurd h (by decide)

/-- No other lexeme starts as a name does. -/
theorem scan?_eq_name_iff {decimalComma : Bool} {word rest : Text} :
    scan? decimalComma t = some (.name word, rest) ↔ Name.scan? t = some (word, rest) := by
  constructor
  · intro h
    cases front_of_scan? h with
    | name hscan => exact hscan
  · intro h
    match t with
    | c :: t =>
      have hstart := Name.isStart_of_scan? h c rfl
      have hopen : c ≠ '(' := by
        rintro rfl
        exact absurd hstart (by decide)
      have hclose : c ≠ ')' := by
        rintro rfl
        exact absurd hstart (by decide)
      simp [scan?, isMark_of_isStart hstart, Name.isDigit_of_isStart hstart, hstart, h]

end Lexeme

end QuantityCalc
