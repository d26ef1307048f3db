import QuantityCalc.Proofs.Unit.Behind

/-!
# Symbols in the text of a unit expression

A run of symbol characters in the text of a unit expression is a symbol of the expression
(`symbol_mem_of_isExpression`). So the unit behind a number leaves a name behind a sign alone, or it
takes all letters that the name starts with, as a symbol that denotes a unit.
-/

namespace QuantityCalc

open Text

namespace UnitExpr

variable {t rest run : Text} {e : UnitExpr}

/-! ## Runs of symbol characters -/

theorem not_hasRun (h : ∀ c ∈ t, isSymbolChar c = false) : ¬HasRun isSymbolChar t run := by
  intro hrun
  obtain ⟨c, hc, hsymbol⟩ := hrun.exists_mem
  rw [h c hc] at hsymbol
  cases hsymbol

theorem isSymbolChar_of_mark : ∀ c ∈ expressionMarks, isSymbolChar c = false :=
  forall_mem_of_all (by decide +kernel)

theorem IsSign.isSymbolChar {sign : Char} {below : Bool} (h : IsSign sign below) :
    isSymbolChar sign = false :=
  isSymbolChar_of_mark sign (by cases h <;> decide)

theorem IsExponent.isSymbolChar {p : Text} {n : Int8} (h : IsExponent p n) :
    ∀ c ∈ p, isSymbolChar c = false := by
  have hcaret : UnitExpr.isSymbolChar '^' = false := isSymbolChar_of_mark _ (by decide)
  have hminus : UnitExpr.isSymbolChar '-' = false := isSymbolChar_of_mark _ (by decide)
  have hdigits {t : Text} {n : Nat} (hn : IsNumber t n) :
      ∀ c ∈ t, UnitExpr.isSymbolChar c = false :=
    fun c hc => isSymbolChar_of_isDigit (hn.isDigit c hc)
  cases h with
  | one => nofun
  | positive hn => exact List.forall_mem_cons.2 ⟨hcaret, hdigits hn⟩
  | negative hn =>
    exact List.forall_mem_cons.2 ⟨hcaret, List.forall_mem_cons.2 ⟨hminus, hdigits hn⟩⟩

/-- A run behind a text without symbol characters. -/
theorem hasRun_right (front : Text) (h : HasRun isSymbolChar (front ++ t) run)
    (hfront : ∀ c ∈ front, isSymbolChar c = false) : HasRun isSymbolChar t run :=
  (h.append (.of_getLast? fun c hc => hfront c (List.mem_of_getLast? hc))).resolve_left
    (not_hasRun hfront)

/-- A run in front of a text without symbol characters. -/
theorem hasRun_left {behind : Text} (h : HasRun isSymbolChar (t ++ behind) run)
    (hbehind : ∀ c ∈ behind, isSymbolChar c = false) : HasRun isSymbolChar t run :=
  (h.append (.of_head? fun c hc => hbehind c (List.mem_of_mem_head? hc))).resolve_right
    (not_hasRun hbehind)

mutual

theorem symbol_mem_of_isTerm {t : Text} {term : UnitTerm} : IsTerm t term →
    HasRun isSymbolChar t run → .symbol (String.ofList run) ∈ term.atoms
  | .symbol _ ht, h => by
    rw [h.eq_of_forall ht]
    exact List.mem_cons_self
  | .integer hn _, h =>
    absurd h (not_hasRun fun c hc => isSymbolChar_of_isDigit (hn.isDigit c hc))
  | .group (t := t) he, h => by
    have hopen : ∀ c ∈ ['('], isSymbolChar c = false :=
      fun c hc => isSymbolChar_of_mark c (by rw [List.mem_singleton.1 hc]; decide)
    have hclose : ∀ c ∈ [')'], isSymbolChar c = false :=
      fun c hc => isSymbolChar_of_mark c (by rw [List.mem_singleton.1 hc]; decide)
    exact symbol_mem_of_isExpression he (hasRun_right ['('] (hasRun_left h hclose) hopen)

theorem symbol_mem_of_isFactor {t : Text} {f : UnitFactor} : IsFactor t f →
    HasRun isSymbolChar t run → .symbol (String.ofList run) ∈ f.1.atoms
  | .mk hterm hp, h => symbol_mem_of_isTerm hterm (hasRun_left h hp.isSymbolChar)

/-- **A run of symbol characters is a symbol of the expression.** -/
theorem symbol_mem_of_isExpression {t : Text} {e : UnitExpr} : IsExpression t e →
    HasRun isSymbolChar t run → .symbol (String.ofList run) ∈ e.atoms
  | .factor hf, h => mem_atoms_single.2 (symbol_mem_of_isFactor hf h)
  | @IsExpression.push _ t' _ sign _ _ he hsign hf, h => by
    have hfirst : ∀ c ∈ (sign :: t').head?, isSymbolChar c = false := by
      rintro c ⟨⟩
      exact hsign.isSymbolChar
    rw [mem_atoms_push]
    rcases h.append (.of_head? hfirst) with h | h
    · exact Or.inl (symbol_mem_of_isExpression he h)
    · have h : HasRun isSymbolChar t' run := hasRun_right [sign] h fun c hc => by
        rw [List.mem_singleton.1 hc]
        exact hsign.isSymbolChar
      exact Or.inr (symbol_mem_of_isFactor hf h)

end

/-! ## The last character -/

/-- Whether an expression may end with a character: one of a symbol, a digit or a parenthesis. -/
def IsLastChar (c : Char) : Prop := isSymbolChar c = true ∨ c.isDigit = true ∨ c = ')'

theorem isLastChar_of_isTerm {term : UnitTerm} (h : IsTerm t term) :
    ∀ c ∈ t.getLast?, IsLastChar c := by
  intro c hc
  cases h with
  | symbol _ ht => exact Or.inl (ht c (List.mem_of_getLast? hc))
  | integer hn => exact Or.inr (Or.inl (hn.isDigit c (List.mem_of_getLast? hc)))
  | group =>
    rw [List.getLast?_concat] at hc
    cases hc
    exact Or.inr (Or.inr rfl)

theorem isLastChar_of_isFactor {f : UnitFactor} (h : IsFactor t f) :
    ∀ c ∈ t.getLast?, IsLastChar c := by
  cases h with
  | mk hterm hp =>
    intro c hc
    rw [List.getLast?_append] at hc
    rcases Option.or_eq_some_iff.1 hc with hc | ⟨-, hc⟩
    · exact Or.inr (Or.inl (hp.isDigit_of_getLast? c hc))
    · exact isLastChar_of_isTerm hterm c hc

theorem isLastChar_of_isExpression (h : IsExpression t e) : ∀ c ∈ t.getLast?, IsLastChar c := by
  cases h with
  | factor hf => exact isLastChar_of_isFactor hf
  | @push t t' e sign below f _ _ hf =>
    intro c hc
    rw [List.append_cons, List.getLast?_append_of_ne_nil _ (ne_nil_of_isFactor hf)] at hc
    exact isLastChar_of_isFactor hf c hc

theorem IsLastChar.not_isSign {c : Char} {below : Bool} (h : IsLastChar c) : ¬IsSign c below := by
  intro hsign
  rcases h with h | h | rfl
  · rw [hsign.isSymbolChar] at h
    cases h
  · cases hsign <;> exact absurd h (by decide)
  · cases hsign

/-! ## Names behind signs -/

theorem isChar_of_isSymbolChar {c : Char} (h : isSymbolChar c = true) : Name.isChar c = true := by
  simp only [isSymbolChar, Bool.or_eq_true, decide_eq_true_eq] at h
  simp only [Name.isChar, Bool.or_eq_true, decide_eq_true_eq]
  exact h.imp_left fun h => Or.inl (Or.inl h)

/-- The symbol characters at the front of a name are those at the front of its text. -/
theorem takeWhile_of_scan? {word behind : Text} (h : Name.scan? t = some (word, behind)) :
    word.takeWhile isSymbolChar = t.takeWhile isSymbolChar := by
  match t with
  | [] => cases h
  | c :: t =>
    simp only [Name.scan?, Option.ite_none_right_eq_some, Option.some.injEq, Prod.mk.injEq] at h
    obtain ⟨-, rfl, rfl⟩ := h
    have hchars : (t.takeWhile Name.isChar).takeWhile isSymbolChar = t.takeWhile isSymbolChar := by
      rw [List.takeWhile_takeWhile]
      congr 1
      funext c
      cases hc : isSymbolChar c with
      | false => simp
      | true => simp [isChar_of_isSymbolChar hc]
    simp only [List.takeWhile_cons, hchars]

/-- A name starts with a symbol character, or with a character that stands in no expression. -/
theorem isSymbolChar_of_isStart {c : Char} (h : Name.isStart c = true) (hc : IsExpressionChar c) :
    isSymbolChar c = true := by
  simp only [Name.isStart, Bool.or_eq_true, decide_eq_true_eq] at h
  rcases h with (h | rfl) | h
  · simp [isSymbolChar, h]
  · rcases hc with hc | hc | hc
    · exact hc
    · exact absurd hc (by decide)
    · exact absurd hc (by decide)
  · simp [isSymbolChar, h]

variable {known : String → Bool}

/-- **A name behind a sign is left alone, or the letters at its front are taken** as a known
symbol. -/
theorem Extent.Fits.left_or_taken {used before after word behind : Text} {sign : Char}
    {below : Bool} (h : Extent.Fits (.longest known) used e)
    (hcut : KeepsRuns isSymbolChar used rest) (ht : used ++ rest = before ++ sign :: after)
    (hsign : IsSign sign below) (hword : Name.scan? after = some (word, behind)) :
    used <+: before ∨ (before ++ sign :: word.takeWhile isSymbolChar <+: used ∧
      known (String.ofList (word.takeWhile isSymbolChar)) = true) := by
  rw [takeWhile_of_scan? hword]
  rcases List.append_eq_append_iff.1 ht with ⟨front, rfl, -⟩ | ⟨front, rfl, hafter⟩
  · exact Or.inl (List.prefix_append _ _)
  · match front with
    | [] => exact Or.inl (by simp)
    | sign' :: taken =>
      rw [List.cons_append, List.cons.injEq] at hafter
      obtain ⟨rfl, rfl⟩ := hafter
      have hne : taken ≠ [] := by
        rintro rfl
        exact (isLastChar_of_isExpression h.1 _ List.getLast?_concat).not_isSign hsign
      have hcut : KeepsRuns isSymbolChar taken rest := by
        rw [List.append_cons] at hcut
        exact (KeepsRuns.append_left_iff _ hne).1 hcut
      rw [hcut.takeWhile_append hne]
      have hrun : HasRun isSymbolChar (before ++ sign :: taken) (taken.takeWhile isSymbolChar) := by
        refine ⟨?_, fun _ hc => List.mem_takeWhile_imp hc, before ++ [sign],
          taken.dropWhile isSymbolChar, by simp, ?_, head?_dropWhile _ _⟩
        · obtain ⟨c, taken, rfl⟩ := List.exists_cons_of_ne_nil hne
          have hstart : Name.isStart c = true := by
            simp only [Name.scan?, List.cons_append, Option.ite_none_right_eq_some] at hword
            exact hword.1
          have hc : isSymbolChar c = true :=
            isSymbolChar_of_isStart hstart (isExpressionChar_of_isExpression h.1 c (by simp))
          simp [hc]
        · intro c hc
          rw [List.getLast?_concat] at hc
          cases hc
          exact hsign.isSymbolChar
      refine Or.inr ⟨?_, h.2 _ (symbol_mem_of_isExpression h.1 hrun)⟩
      rw [List.prefix_append_right_inj, List.cons_prefix_cons]
      exact ⟨rfl, List.takeWhile_prefix _⟩

end UnitExpr

namespace UnitSystem

open UnitExpr

variable {s : UnitSystem} {t rest : Text} {u : MeasureUnit}

/-- **The unit behind a number cuts no symbol**: behind a symbol character that it ends with there
is no letter and no degree sign. A name behind one of its signs is left alone, or all letters that
the name starts with are taken, as a symbol that denotes a unit. -/
theorem leaves_or_takes_name (h : s.scan? t = some (.ok (u, rest))) :
    ∃ used, t = used ++ rest ∧
      (∀ c ∈ used.getLast?, isSymbolChar c = true → ∀ d ∈ rest.head?, isSymbolChar d = false) ∧
      ∀ before sign after word behind, t = before ++ sign :: after → sign = '*' ∨ sign = '/' →
        Name.scan? after = some (word, behind) →
        used <+: before ∨ (before ++ sign :: word.takeWhile isSymbolChar <+: used ∧
          s.contains (String.ofList (word.takeWhile isSymbolChar)) = true) := by
  obtain ⟨⟨e, rest'⟩, he, h⟩ := Option.map_eq_some_iff.1 h
  obtain ⟨u', -, h⟩ := Except.bind_eq_ok.1 h
  cases h
  obtain ⟨used, rfl, hfits, hstops, -⟩ := exists_of_scan? he
  refine ⟨used, rfl, hstops.symbol, fun before sign after word behind ht hsign hword => ?_⟩
  rcases hsign with rfl | rfl
  · exact hfits.left_or_taken hstops.symbol ht .star hword
  · exact hfits.left_or_taken hstops.symbol ht .slash hword

/-- The unit in front of a digit that follows a symbol. -/
theorem scan?_digit : international.scan? "m/s2".toList =
    some (.ok (⟨"m/s", { length := 1, time := -1 }, 1, 0, .expression⟩, "2".toList)) := by
  decide +kernel

theorem leaves_or_takes_name_sample :
    international.scan? "m/s2".toList =
        some (.ok (⟨"m/s", { length := 1, time := -1 }, 1, 0, .expression⟩, "2".toList)) ∧
      Name.scan? "s2".toList = some ("s2".toList, []) ∧ international.contains "s" = true := by
  have hword : Name.scan? "s2".toList = some ("s2".toList, []) := by decide +kernel
  obtain ⟨used, ht, -, hnames⟩ := leaves_or_takes_name scan?_digit
  have ht : "m/s".toList ++ "2".toList = used ++ "2".toList := ht
  have hused : "m/s".toList = used := List.append_cancel_right ht
  refine ⟨scan?_digit, hword, ?_⟩
  rcases hnames "m".toList '/' "s2".toList _ _ rfl (Or.inr rfl) hword with hleft | ⟨-, htaken⟩
  · rw [← hused] at hleft
    exact absurd hleft.length_le (by decide)
  · exact htaken

/-- The digit behind a symbol belongs to a name: `m/s2` is read as metres per second, although `s2`
is one name. -/
theorem cuts_name_at_digit :
    ¬∀ (s : UnitSystem) (t rest : Text) (u : MeasureUnit), s.scan? t = some (.ok (u, rest)) →
      ∃ used, t = used ++ rest ∧ ∀ c ∈ used.getLast?, isSymbolChar c = true →
        ∀ d ∈ rest.head?, Name.isChar d = false := by
  intro h
  obtain ⟨used, ht, hcut⟩ := h _ _ _ _ scan?_digit
  have ht : "m/s".toList ++ "2".toList = used ++ "2".toList := ht
  have hused : "m/s".toList = used := List.append_cancel_right ht
  subst hused
  exact absurd (hcut 's' rfl (by decide) '2' rfl) (by decide)

end UnitSystem

end QuantityCalc
