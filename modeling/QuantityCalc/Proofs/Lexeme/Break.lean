import QuantityCalc.Lexeme.Basic
import QuantityCalc.Proofs.Text.Break

/-!
# Lexemes in front of a break

A lexeme is read in the same way whether the text ends behind it or a break follows: no lexeme goes
on over a space, a semicolon, or a comma with a space behind it. `Literal.scan?_append` says so for
number literals, and `Lexeme.scan?_append` for all lexemes.
-/

namespace QuantityCalc

open Text

variable {r : Text}

namespace Literal

/-- No literal goes on in a text: it starts with no character of a literal, apart from the signs of
exponents, or with a comma that is no decimal sign. -/
structure Stops (r : Text) : Prop where
  front : ∀ c ∈ r.head?, isHexDigit c = false ∧ c ∉ ['x', 'X', 'h', 'H', '.']
  comma : ∀ u, r = ',' :: u → ∀ c ∈ u.head?, isHexDigit c = false

theorem Stops.of_isBreak (hr : IsBreak r) : Stops r := by
  cases hr with
  | nil => exact ⟨nofun, nofun⟩
  | space | semicolon =>
    refine ⟨?_, nofun⟩
    rintro _ ⟨⟩
    decide
  | comma u =>
    refine ⟨?_, ?_⟩
    · rintro _ ⟨⟩
      decide
    · rintro _ ⟨⟩ _ ⟨⟩
      decide

theorem isDigitOf_of_isHexDigit {c : Char} (h : isHexDigit c = false) (hexMark : Text) :
    isDigitOf hexMark c = false := by
  unfold isDigitOf
  split
  · simp only [isHexDigit, Bool.or_eq_false_iff] at h
    exact h.1.1
  · exact h

theorem Stops.isDigitOf (hr : Stops r) (hexMark : Text) :
    ∀ c ∈ r.head?, isDigitOf hexMark c = false :=
  fun c hc => isDigitOf_of_isHexDigit (hr.front c hc).1 hexMark

theorem Stops.ne (hr : Stops r) {c : Char}
    (hc : isHexDigit c = true ∨ c ∈ ['x', 'X', 'h', 'H', '.']) (u : Text) : r ≠ c :: u := by
  rintro rfl
  obtain ⟨hdigit, hmark⟩ := hr.front c rfl
  rcases hc with hc | hc
  · rw [hdigit] at hc
    cases hc
  · exact hmark hc

theorem splitSign_front {t : Text} (h : t ≠ [] ∨ splitSign r = ([], r)) :
    splitSign (t ++ r) = ((splitSign t).1, (splitSign t).2 ++ r) := by
  match t, h with
  | [], .inr h => exact h
  | c :: t, _ =>
    by_cases hminus : c = '-'
    · simp [splitSign, hminus]
    · by_cases hplus : c = '+'
      · simp [splitSign, hplus]
      · simp [splitSign, hminus, hplus]

theorem splitHexMark_front (hr : Stops r) (t : Text) :
    splitHexMark (t ++ r) = ((splitHexMark t).1, (splitHexMark t).2 ++ r) := by
  have hnone {u : Text} (hx : ∀ v, u ≠ '0' :: 'x' :: v) (hX : ∀ v, u ≠ '0' :: 'X' :: v) :
      splitHexMark u = ([], u) := splitHexMark.eq_3 _ hx hX
  rcases t with _ | ⟨c, _ | ⟨d, t⟩⟩
  · have hzero (v : Text) : r ≠ '0' :: v := hr.ne (.inl (by decide)) v
    exact hnone (fun v => hzero _) fun v => hzero _
  · have hx (v : Text) : r ≠ 'x' :: v := hr.ne (.inr (by decide)) v
    have hX (v : Text) : r ≠ 'X' :: v := hr.ne (.inr (by decide)) v
    rw [hnone (u := [c] ++ r) (by simp [hx]) (by simp [hX]), hnone (u := [c]) (by simp) (by simp)]
  · by_cases hx : c = '0' ∧ d = 'x'
    · simp [splitHexMark, hx]
    · by_cases hX : c = '0' ∧ d = 'X'
      · simp [splitHexMark, hX]
      · rw [hnone (u := c :: d :: t ++ r) (by grind) (by grind),
          hnone (u := c :: d :: t) (by grind) (by grind)]

theorem splitFraction_front (hr : Stops r) (decimalComma : Bool) (hexMark t : Text) :
    splitFraction decimalComma hexMark (t ++ r) =
      ((splitFraction decimalComma hexMark t).1, (splitFraction decimalComma hexMark t).2.1,
        (splitFraction decimalComma hexMark t).2.2 ++ r) := by
  rcases t with _ | ⟨c, _ | ⟨d, t⟩⟩
  · rcases r with _ | ⟨b, _ | ⟨d, u⟩⟩
    · rfl
    · rfl
    · have hpoint : b ≠ '.' := by
        rintro rfl
        exact hr.ne (.inr (by decide)) _ rfl
      have hcomma : b = ',' → isDigitOf hexMark d = false := by
        rintro rfl
        exact isDigitOf_of_isHexDigit (hr.comma _ rfl d rfl) hexMark
      by_cases hb : b = ','
      · simp [splitFraction, hcomma hb]
      · simp [splitFraction, hpoint, hb]
  · cases r with
    | nil => rfl
    | cons b u => simp [splitFraction, hr.isDigitOf hexMark b rfl]
  · simp only [splitFraction, List.cons_append, takeWhile_append_of_head? (hr.isDigitOf hexMark),
      dropWhile_append_of_head? (hr.isDigitOf hexMark)]
    split <;> rfl

theorem splitExponent_front (hr : Stops r) {t : Text}
    (h : splitSign r = ([], r) ∨ (splitExponent t).2 = []) :
    splitExponent (t ++ r) = ((splitExponent t).1, (splitExponent t).2 ++ r) := by
  match t with
  | [] =>
    match r with
    | [] => rfl
    | b :: u =>
      have hmark : ¬(b = 'e' ∨ b = 'E' ∨ b = 'h' ∨ b = 'H') := by
        rintro (rfl | rfl | rfl | rfl)
        · exact hr.ne (.inl (by decide)) _ rfl
        · exact hr.ne (.inl (by decide)) _ rfl
        · exact hr.ne (.inr (by decide)) _ rfl
        · exact hr.ne (.inr (by decide)) _ rfl
      simp only [not_or] at hmark
      simp [splitExponent, hmark]
  | c :: t =>
    have hsign : t ≠ [] ∨ splitSign r = ([], r) := by
      rcases h with h | h
      · exact .inr h
      · refine .inl ?_
        rintro rfl
        simp [splitExponent, splitSign, splitHexMark] at h
    simp only [splitExponent, List.cons_append, splitSign_front hsign, splitHexMark_front hr,
      takeWhile_append_of_head? (hr.isDigitOf _), dropWhile_append_of_head? (hr.isDigitOf _)]
    split
    · split <;> rfl
    · rfl

/-- **What no literal goes on in does not change how a literal is read in front of it**, if it does
not start with a sign or the literal is whole. -/
theorem scan?_of_stops (hr : Stops r) {decimalComma : Bool} {t : Text}
    (h : splitSign r = ([], r) ∨ ∃ l, scan? decimalComma t = some (l, [])) :
    scan? decimalComma (t ++ r) =
      (scan? decimalComma t).map fun (l, rest) => (l, rest ++ r) := by
  have hsign : t ≠ [] ∨ splitSign r = ([], r) := by
    rcases h with h | ⟨l, hscan⟩
    · exact .inr h
    · refine .inl ?_
      rintro rfl
      cases hscan
  simp only [scan?, splitSign_front hsign, splitHexMark_front hr,
    takeWhile_append_of_head? (hr.isDigitOf _), dropWhile_append_of_head? (hr.isDigitOf _),
    splitFraction_front hr] at h ⊢
  split
  · split <;> rfl
  · rename_i hdigits
    rw [splitExponent_front hr]
    · rfl
    · refine h.imp_right ?_
      rintro ⟨l, hscan⟩
      rw [if_neg hdigits, Option.some.injEq, Prod.mk.injEq] at hscan
      exact hscan.2

/-- **A break does not change how a literal is read.** -/
theorem scan?_append (hr : IsBreak r) (decimalComma : Bool) (t : Text) :
    scan? decimalComma (t ++ r) =
      (scan? decimalComma t).map fun (l, rest) => (l, rest ++ r) := by
  refine scan?_of_stops (.of_isBreak hr) (.inl ?_)
  cases hr <;> rfl

end Literal

theorem Name.scan?_append (hr : IsBreak r) (t : Text) :
    Name.scan? (t ++ r) = (Name.scan? t).map fun (word, rest) => (word, rest ++ r) := by
  have hbreak : ∀ c ∈ breaks, Name.isChar c = false :=
    forall_breaks (by decide) (by decide) (by decide)
  match t with
  | [] => cases hr <;> rfl
  | c :: t =>
    simp only [Name.scan?, List.cons_append, takeWhile_append_of_isBreak hbreak hr,
      dropWhile_append_of_isBreak hbreak hr]
    split <;> rfl

namespace Lexeme

/-- No operator is spelled with a break. -/
theorem ofSymbol?_break (c : Char) {b : Char} (hb : b ∈ breaks) :
    Operator.ofSymbol? (String.ofList [c, b]) = none := by
  rw [Operator.ofSymbol?, List.find?_eq_none]
  intro op hop heq
  have htext : op.symbol.toList = [c, b] := by
    rw [of_decide_eq_true heq, String.toList_ofList]
  have hsymbol : ∀ b ∈ breaks, b ∉ op.symbol.toList :=
    forall_breaks (by cases op <;> decide) (by cases op <;> decide) (by cases op <;> decide)
  exact hsymbol b hb (by simp [htext])

theorem operator?_single (c : Char) :
    operator? [c] = (Operator.ofSymbol? (String.ofList [c])).map fun op => (op, []) := by
  unfold operator?
  split
  · rename_i h
    simp at h
  · rfl

theorem operator?_cons_cons (c d : Char) (t : Text) :
    operator? (c :: d :: t) = match Operator.ofSymbol? (String.ofList [c, d]) with
      | some op => some (op, t)
      | none => (Operator.ofSymbol? (String.ofList [c])).map fun op => (op, d :: t) := by
  unfold operator?
  simp only [List.take_succ_cons, List.take_zero, List.drop_succ_cons, List.drop_zero]
  cases Operator.ofSymbol? (String.ofList [c, d]) <;> rfl

theorem operator?_append (hr : IsBreak r) {t : Text} (ht : t ≠ []) :
    operator? (t ++ r) = (operator? t).map fun (op, rest) => (op, rest ++ r) := by
  match t with
  | [c] =>
    rcases hr.eq_nil_or_cons with rfl | ⟨b, hb, r', rfl⟩
    · simp
    · rw [List.cons_append, List.nil_append, operator?_cons_cons, ofSymbol?_break c hb,
        operator?_single, Option.map_map]
      rfl
  | c :: d :: t =>
    rw [List.cons_append, List.cons_append, operator?_cons_cons, operator?_cons_cons]
    cases Operator.ofSymbol? (String.ofList [c, d]) with
    | some op => rfl
    | none =>
      rw [Option.map_map]
      rfl

/-- **A break does not change how a lexeme is read.** -/
theorem scan?_append (hr : IsBreak r) (decimalComma : Bool) {t : Text} (ht : t ≠ []) :
    scan? decimalComma (t ++ r) =
      (scan? decimalComma t).map fun (l, rest) => (l, rest ++ r) := by
  match t with
  | c :: t =>
    by_cases hopen : c = '('
    · simp [scan?, hopen]
    · by_cases hclose : c = ')'
      · simp [scan?, hclose]
      · simp only [scan?, List.cons_append]
        split
        · rfl
        · split
          · rw [← List.cons_append, Literal.scan?_append hr, Option.map_map, Option.map_map]
            rfl
          · split
            · rw [← List.cons_append, Name.scan?_append hr, Option.map_map, Option.map_map]
              rfl
            · rw [← List.cons_append, operator?_append hr (by simp), Option.map_map, Option.map_map]
              rfl

end Lexeme

end QuantityCalc
