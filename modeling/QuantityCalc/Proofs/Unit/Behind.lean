import QuantityCalc.Lexeme.Basic
import QuantityCalc.Proofs.Text.Place
import QuantityCalc.Proofs.Unit.Grammar
import QuantityCalc.Unit.International

/-!
# The unit behind a number

The reader of the unit behind a number may stop before what does not fit. Where it stops, it has cut
neither a symbol nor a number, and it has not passed over an exponent out of range (`Stops`): a
factor that has such an exponent is not read at all.
-/

namespace QuantityCalc

open Text

namespace UnitExpr

variable {known : String → Bool} {group : Cursor → Except UnitError (UnitExpr × Cursor)}
  {c d : Cursor} {t rest : Text} {e : UnitExpr}

/-! ## Exponents out of range -/

/-- Whether a text starts with an exponent that no factor can have: zero, or above 127. -/
def StartsOutOfRange (t : Text) : Prop :=
  ∃ sign digits rest, t = '^' :: (sign ++ digits ++ rest) ∧ (sign = [] ∨ sign = ['-']) ∧
    digits ≠ [] ∧ (∀ c ∈ digits, c.isDigit = true) ∧ (∀ c ∈ rest.head?, c.isDigit = false) ∧
    (Decimal.ofDigits 10 digits = 0 ∨ 127 < Decimal.ofDigits 10 digits)

theorem splitMinus_digits {digits : Text} (hne : digits ≠ [])
    (hdigits : ∀ c ∈ digits, c.isDigit = true) (rest : Text) :
    splitMinus (digits ++ rest) = (false, digits ++ rest) := by
  obtain ⟨first, digits, rfl⟩ := List.exists_cons_of_ne_nil hne
  have hfirst : first ≠ '-' := by
    rintro rfl
    exact absurd (hdigits '-' List.mem_cons_self) (by decide)
  simp [splitMinus, hfirst]

theorem splitMinus_sign (t : Text) :
    ∃ sign, (sign = [] ∨ sign = ['-']) ∧ t = sign ++ (splitMinus t).2 := by
  rcases splitMinus_cases t with ⟨t, rfl, hminus⟩ | hminus
  · exact ⟨['-'], Or.inr rfl, by rw [hminus]; rfl⟩
  · exact ⟨[], Or.inl rfl, by rw [hminus]; rfl⟩

/-- **A reader that may stop refuses an exponent if and only if it is out of range.** -/
theorem exponent_eq_error_iff (known : String → Bool) :
    (∃ error, exponent (.longest known) c = .error error) ↔ StartsOutOfRange c.rest := by
  constructor
  · rintro ⟨error, h⟩
    unfold exponent at h
    split at h
    · rename_i behind hrest
      obtain ⟨sign, hsign, hbehind⟩ := splitMinus_sign behind
      dsimp only at h
      split at h
      · cases h
      · rename_i hne
        refine ⟨sign, (splitMinus behind).2.takeWhile Char.isDigit,
          (splitMinus behind).2.dropWhile Char.isDigit, ?_, hsign, by simpa using hne,
          fun _ hc => List.mem_takeWhile_imp hc, head?_dropWhile _ _, ?_⟩
        · rw [hrest, List.append_assoc, List.takeWhile_append_dropWhile, ← hbehind]
        · split at h
          · rename_i hlarge
            exact Or.inr hlarge
          · split at h
            · rename_i hzero
              exact Or.inl hzero
            · cases h
    · cases h
  · rintro ⟨sign, digits, rest, hc, hsign, hne, hdigits, hrest, hvalue⟩
    have hminus : (splitMinus (sign ++ digits ++ rest)).2 = digits ++ rest := by
      rcases hsign with rfl | rfl
      · rw [List.nil_append, splitMinus_digits hne hdigits]
      · rfl
    simp only [exponent, hc, hminus, takeWhile_run hdigits hrest, dropWhile_run hdigits hrest]
    rw [if_neg (by simpa using hne)]
    split
    · exact ⟨_, rfl⟩
    · rename_i hle
      rw [if_pos (hvalue.resolve_right hle)]
      exact ⟨_, rfl⟩

/-- What an exponent leaves: all of the text, or what stands behind its digits. -/
theorem eq_or_digits_of_exponent {n : Int8} (h : exponent (.longest known) c = .ok (n, d)) :
    d = c ∨ ∃ p, p ≠ [] ∧ c.rest = p ++ d.rest ∧ (∀ x ∈ p.getLast?, x.isDigit = true) ∧
      ∀ x ∈ d.rest.head?, x.isDigit = false := by
  unfold exponent at h
  split at h
  · rename_i behind hrest
    dsimp only at h
    split at h
    · cases h
      exact Or.inl rfl
    · rename_i hne
      split at h
      · cases h
      · split at h
        · cases h
        · cases h
          obtain ⟨sign, hsign⟩ := suffix_splitMinus behind
          rw [hrest]
          generalize (splitMinus behind).2 = behind' at hsign hne
          refine Or.inr ⟨'^' :: sign ++ behind'.takeWhile Char.isDigit, by simp, ?_, ?_,
            head?_dropWhile _ _⟩
          · simp [← hsign]
          · intro x hx
            rw [List.getLast?_append, Option.or_of_isSome (by simpa using hne)] at hx
            exact List.mem_takeWhile_imp (List.mem_of_getLast? hx)
  · cases h
    exact Or.inl rfl

/-! ## Where the reader stops -/

/-- Whether a factor without an exponent is over, and an exponent out of range follows. -/
def Refused (t rest : Text) : Prop :=
  (∀ c ∈ t.getLast?, c.isDigit = false) ∧ StartsOutOfRange rest

/-- Whether the boundary behind a text cuts nothing and passes over no exponent out of range. -/
structure Stops (t rest : Text) : Prop extends Uncut t rest where
  not_refused : ¬Refused t rest

theorem stops_append_iff (front : Text) (hne : t ≠ []) :
    Stops (front ++ t) rest ↔ Stops t rest := by
  have hrefused : Refused (front ++ t) rest ↔ Refused t rest := by
    rw [Refused, List.getLast?_append_of_ne_nil _ hne]
    rfl
  constructor <;> rintro ⟨⟨hsymbol, hdigit⟩, hnot⟩
  · exact ⟨⟨(KeepsRuns.append_left_iff front hne).1 hsymbol,
      (KeepsRuns.append_left_iff front hne).1 hdigit⟩, fun h => hnot (hrefused.2 h)⟩
  · exact ⟨⟨(KeepsRuns.append_left_iff front hne).2 hsymbol,
      (KeepsRuns.append_left_iff front hne).2 hdigit⟩, fun h => hnot (hrefused.1 h)⟩

/-- A term without integers ends with no digit. -/
theorem isDigit_of_isTerm {term : UnitTerm} (h : Extent.FitsTerm (.longest known) t term) :
    ∀ x ∈ t.getLast?, x.isDigit = false := by
  intro x hx
  obtain ⟨hterm, hatoms⟩ := h
  cases hterm with
  | symbol _ ht => exact isDigit_of_isSymbolChar (ht x (List.mem_of_getLast? hx))
  | integer => exact (hatoms _ List.mem_cons_self).elim
  | group =>
    rw [List.getLast?_concat] at hx
    cases hx
    decide

/-- A symbol is read up to the first other character. -/
theorem isSymbolChar_of_primary {extent : Extent} {name : String}
    (h : primary extent group c = .ok (.symbol name, d)) :
    ∀ x ∈ d.rest.head?, isSymbolChar x = false := by
  unfold primary at h
  split at h
  · obtain ⟨⟨e, g⟩, -, h⟩ := Except.bind_eq_ok.1 h
    dsimp only at h
    split at h <;> cases h
  · split at h
    · dsimp only at h
      split at h
      · cases h
      · split at h <;> cases h
    · split at h
      · dsimp only at h
        split at h
        · cases h
          exact head?_dropWhile _ _
        · cases h
      · cases h
  · cases h

/-- Behind a term that is read, its symbol is over. -/
theorem exists_of_primary (hg : Reads group (Extent.Fits (.longest known))) {term : UnitTerm}
    (h : primary (.longest known) group c = .ok (term, d)) :
    ∃ t, c.rest = t ++ d.rest ∧ Extent.FitsTerm (.longest known) t term ∧
      KeepsRuns isSymbolChar t d.rest := by
  obtain ⟨t, ht, hfits⟩ := fits_primary hg h
  refine ⟨t, ht, hfits, ?_⟩
  obtain ⟨hterm, hatoms⟩ := hfits
  cases hterm with
  | symbol => exact .of_head? (isSymbolChar_of_primary h)
  | integer => exact (hatoms _ List.mem_cons_self).elim
  | group =>
    refine .of_getLast? fun x hx => ?_
    rw [List.getLast?_concat] at hx
    cases hx
    decide

/-- Whatever the reader takes, it stops behind it. -/
def StopsBehind {α : Type} (read : Cursor → Except UnitError (α × Cursor)) : Prop :=
  ∀ ⦃c a d⦄, read c = .ok (a, d) → ∃ t, t ≠ [] ∧ c.rest = t ++ d.rest ∧ Stops t d.rest

theorem stopsBehind_factor (hg : Reads group (Extent.Fits (.longest known))) :
    StopsBehind (factor (.longest known) group) := by
  intro c f d h
  obtain ⟨⟨term, d₁⟩, hterm, h⟩ := Except.bind_eq_ok.1 h
  obtain ⟨⟨n, d₂⟩, hn, h⟩ := Except.bind_eq_ok.1 h
  cases h
  obtain ⟨t, ht, hfits, hsymbol⟩ := exists_of_primary hg hterm
  have hne : t ≠ [] := ne_nil_of_isTerm hfits.1
  rcases eq_or_digits_of_exponent hn with rfl | ⟨p, hp, hrest, hdigit, hend⟩
  · refine ⟨t, hne, ht, ⟨hsymbol, .of_getLast? (isDigit_of_isTerm hfits)⟩, fun hrefused => ?_⟩
    obtain ⟨error, herror⟩ := (exponent_eq_error_iff known).2 hrefused.2
    rw [hn] at herror
    cases herror
  · refine ⟨t ++ p, by simp [hne], by rw [ht, hrest, List.append_assoc], ?_⟩
    have hstops : Stops p d.rest := by
      refine ⟨⟨.of_getLast? fun x hx => isSymbolChar_of_isDigit (hdigit x hx), .of_head? hend⟩,
        fun hrefused => ?_⟩
      have hlast := List.getLast?_eq_some_getLast hp
      have hfalse := hrefused.1 _ hlast
      rw [hdigit _ hlast] at hfalse
      cases hfalse
    exact (stops_append_iff t hp).2 hstops

theorem stops_of_factors (hg : Reads group (Extent.Fits (.longest known))) {e' : UnitExpr}
    (rounds : Nat) (h : factors (.longest known) group rounds c e = .ok (e', d)) :
    d = c ∨ ∃ t, t ≠ [] ∧ c.rest = t ++ d.rest ∧ Stops t d.rest := by
  induction rounds generalizing c e with
  | zero =>
    cases h
    exact Or.inl rfl
  | succ rounds ih =>
    simp only [factors] at h
    split at h
    · cases h
      exact Or.inl rfl
    · rename_i below rest hsign
      obtain ⟨sign, hrest, -⟩ := isSign_of_sign? hsign
      split at h
      · cases h
        exact Or.inl rfl
      · split at h
        · rename_i f d₁ hf
          obtain ⟨t, hne, ht, hstops⟩ := stopsBehind_factor hg hf
          rw [Cursor.rest_moveTo] at ht
          right
          rcases ih h with rfl | ⟨t', hne', ht', hstops'⟩
          · exact ⟨sign :: t, by simp, by rw [hrest, ht, List.cons_append],
              (stops_append_iff [sign] hne).2 hstops⟩
          · exact ⟨sign :: t ++ t', by simp, by simp [hrest, ht, ht'],
              (stops_append_iff (sign :: t) hne').2 hstops'⟩
        · cases h
          exact Or.inl rfl

/-- **Where an expression ends, nothing is cut** and no exponent out of range is passed over. -/
theorem stopsBehind_expression (depth : Nat) :
    StopsBehind (expression (.longest known) depth) := by
  intro c e d h
  cases depth with
  | zero => cases h
  | succ depth =>
    obtain ⟨⟨f, d₁⟩, hf, h⟩ := Except.bind_eq_ok.1 h
    obtain ⟨t, hne, ht, hstops⟩ := stopsBehind_factor (fits_expression depth) hf
    rcases stops_of_factors (fits_expression depth) _ h with rfl | ⟨t', hne', ht', hstops'⟩
    · exact ⟨t, hne, ht, hstops⟩
    · exact ⟨t ++ t', by simp [hne], by rw [ht, ht', List.append_assoc],
        (stops_append_iff t hne').2 hstops'⟩

/-- The text of the unit behind a number: an expression of known symbols that the reader stops
behind. -/
theorem exists_of_scan? (h : scan? known t = some (e, rest)) :
    ∃ used, t = used ++ rest ∧ Extent.Fits (.longest known) used e ∧ Stops used rest ∧
      used.head?.any isSymbolChar = true := by
  obtain ⟨used, rfl, hfits⟩ := isExpression_of_scan? h
  have hne := ne_nil_of_isExpression hfits.1
  refine ⟨used, rfl, hfits, ?_⟩
  unfold scan? at h
  split at h
  · rename_i hhead
    rw [List.head?_append_of_ne_nil _ hne] at hhead
    split at h
    · rename_i hread
      cases h
      obtain ⟨used', -, heq, hstops⟩ := stopsBehind_expression _ hread
      rw [Cursor.rest_start, List.append_cancel_right_eq] at heq
      subst heq
      exact ⟨hstops, hhead⟩
    · cases h
  · cases h

/-- **The unit expression behind a number is parsed alike**, with known symbols and no integers. -/
theorem parse_of_scan? (h : scan? known t = some (e, rest)) :
    ∃ used, t = used ++ rest ∧ 0 < bytes used ∧ parse used = .ok e ∧
      (∀ name, .symbol name ∈ e.atoms → known name = true) ∧ ∀ n, .integer n ∉ e.atoms := by
  obtain ⟨used, ht, ⟨he, hatoms⟩, -⟩ := exists_of_scan? h
  exact ⟨used, ht, bytes_pos (ne_nil_of_isExpression he), parse_eq_of_isExpression he,
    fun name hname => hatoms _ hname, fun n hn => hatoms _ hn⟩

end UnitExpr

namespace UnitSystem

variable {s : UnitSystem} {t rest : Text} {u : MeasureUnit}

theorem parse_of_scan? (h : s.scan? t = some (.ok (u, rest))) :
    ∃ used, t = used ++ rest ∧ 0 < bytes used ∧ s.parse used = .ok u := by
  obtain ⟨⟨e, rest'⟩, he, h⟩ := Option.map_eq_some_iff.1 h
  obtain ⟨u', hu, h⟩ := Except.bind_eq_ok.1 h
  cases h
  obtain ⟨used, rfl, ⟨hexpr, -⟩, -⟩ := UnitExpr.exists_of_scan? he
  refine ⟨used, rfl, bytes_pos (UnitExpr.ne_nil_of_isExpression hexpr), ?_⟩
  rw [List.length_append, Nat.add_sub_cancel, List.take_left] at hu
  rw [parse, UnitExpr.parse_eq_of_isExpression hexpr, UnitExpr.trim_of_isExpression hexpr]
  exact hu

/-- **The unit behind a number is what its text denotes as a whole.** The text that is read is not
empty, ends between two characters, and is parsed as the same unit; the same holds of unit
expressions, whichever symbols are known. So the two readers agree on a text that both take. -/
theorem parse_of_read :
    (∀ {s : UnitSystem} {t rest : Text} {u : MeasureUnit}, s.scan? t = some (.ok (u, rest)) →
      ∃ used, t = used ++ rest ∧ 0 < bytes used ∧ bytes used ≤ bytes t ∧
        t.At (bytes used) rest ∧ s.parse used = .ok u) ∧
    (∀ {known : String → Bool} {t rest : Text} {e : UnitExpr},
      UnitExpr.scan? known t = some (e, rest) →
      ∃ used, t = used ++ rest ∧ 0 < bytes used ∧ bytes used ≤ bytes t ∧
        t.At (bytes used) rest ∧ UnitExpr.parse used = .ok e ∧
        (∀ name, .symbol name ∈ e.atoms → known name = true) ∧ ∀ n, .integer n ∉ e.atoms) ∧
    ∀ {s : UnitSystem} {t : Text} {u v : MeasureUnit},
      s.scan? t = some (.ok (u, [])) → s.parse t = .ok v → u = v := by
  have hplace (used rest : Text) : bytes used ≤ bytes (used ++ rest) ∧
      (used ++ rest).At (bytes used) rest :=
    ⟨by rw [bytes_append]; exact Nat.le_add_right _ _, at_append used rest⟩
  refine ⟨?_, ?_, ?_⟩
  · intro s t rest u h
    obtain ⟨used, rfl, hpos, hparse⟩ := parse_of_scan? h
    exact ⟨used, rfl, hpos, (hplace used rest).1, (hplace used rest).2, hparse⟩
  · intro known t rest e h
    obtain ⟨used, rfl, hpos, hparse, hknown, hinteger⟩ := UnitExpr.parse_of_scan? h
    exact ⟨used, rfl, hpos, (hplace used rest).1, (hplace used rest).2, hparse, hknown, hinteger⟩
  · intro s t u v h hv
    obtain ⟨used, ht, -, hparse⟩ := parse_of_scan? h
    rw [List.append_nil] at ht
    rw [ht, hparse] at hv
    exact Except.ok.inj hv

theorem parse_of_read_bracket :
    (international.scan? "km/h]".toList = some (.ok
        (⟨"km/h", { length := 1, time := -1 }, 1000 / 3600, 0, .expression⟩, "]".toList)) ∧
      international.parse "km/h".toList =
        .ok ⟨"km/h", { length := 1, time := -1 }, 1000 / 3600, 0, .expression⟩) ∧
    (UnitExpr.scan? (· = "m") "m*q".toList = some (.symbol "m", "*q".toList) ∧
      UnitExpr.parse "m".toList = .ok (.symbol "m")) ∧
    ∃ u v, international.scan? "m/s".toList = some (.ok (u, [])) ∧
      international.parse "m/s".toList = .ok v ∧ u = v := by
  refine ⟨?_, ?_, ?_⟩
  · have h : international.scan? "km/h]".toList = some (.ok
        (⟨"km/h", { length := 1, time := -1 }, 1000 / 3600, 0, .expression⟩, "]".toList)) := by
      decide +kernel
    obtain ⟨used, ht, -, -, -, hparse⟩ := parse_of_read.1 h
    have ht : "km/h".toList ++ "]".toList = used ++ "]".toList := ht
    have hused : "km/h".toList = used := List.append_cancel_right ht
    exact ⟨h, hused ▸ hparse⟩
  · have h : UnitExpr.scan? (· = "m") "m*q".toList = some (.symbol "m", "*q".toList) := rfl
    obtain ⟨used, ht, -, -, -, hparse, -⟩ := parse_of_read.2.1 h
    have ht : "m".toList ++ "*q".toList = used ++ "*q".toList := ht
    have hused : "m".toList = used := List.append_cancel_right ht
    exact ⟨h, hused ▸ hparse⟩
  · have h : international.scan? "m/s".toList =
        some (.ok (⟨"m/s", { length := 1, time := -1 }, 1, 0, .expression⟩, [])) := by
      decide +kernel
    have hv : international.parse "m/s".toList =
        .ok ⟨"m/s", { length := 1, time := -1 }, 1, 0, .expression⟩ := by
      decide +kernel
    exact ⟨_, _, h, hv, parse_of_read.2.2 h hv⟩

end UnitSystem

end QuantityCalc
