import QuantityCalc.Proofs.Except
import QuantityCalc.Unit.Resolution

/-!
# The text behind a unit expression

Reading a unit expression takes characters from the front of a text: what it leaves is a suffix.
Each reader of the grammar `Consumes` in this sense if the readers that it calls do.
-/

namespace QuantityCalc

namespace UnitExpr

variable {α : Type}

/-- Whenever the reader has a value, it leaves a suffix of the text. -/
def Consumes (read : Cursor → Except UnitError (α × Cursor)) : Prop :=
  ∀ ⦃c a d⦄, read c = .ok (a, d) → d.rest <:+ c.rest

variable {extent : Extent} {group : Cursor → Except UnitError (UnitExpr × Cursor)}

theorem suffix_of_primary (hg : Consumes group) {c d : Cursor} {term : UnitTerm}
    (h : primary extent group c = .ok (term, d)) :
    d.rest <:+ c.rest ∧ d.rest.length < c.rest.length := by
  unfold primary at h
  split at h
  · rename_i rest hrest
    obtain ⟨⟨e, g⟩, he, h⟩ := Except.bind_eq_ok.1 h
    have hsuffix : g.rest <:+ rest := hg he
    dsimp only at h
    split at h
    · rename_i rest' hclose
      cases h
      have hrest' : rest' <:+ rest := by
        refine List.IsSuffix.trans ?_ hsuffix
        rw [hclose]
        exact List.suffix_cons _ _
      have := hrest'.length_le
      rw [hrest]
      exact ⟨hrest'.trans (List.suffix_cons _ _), by simp; omega⟩
    · cases h
  · rename_i first rest _ hrest
    have hdrop (p : Char → Bool) : rest.dropWhile p <:+ first :: rest ∧
        (rest.dropWhile p).length < (first :: rest).length := by
      have hd : rest.dropWhile p <:+ rest := List.dropWhile_suffix p
      have := hd.length_le
      exact ⟨hd.trans (List.suffix_cons _ _), by simp only [List.length_cons]; omega⟩
    rw [hrest]
    split at h
    · dsimp only at h
      split at h
      · cases h
      · split at h
        · cases h
        · cases h
          exact hdrop _
    · split at h
      · dsimp only at h
        split at h
        · cases h
          exact hdrop _
        · cases h
      · cases h
  · cases h

theorem suffix_splitMinus (t : Text) : (splitMinus t).2 <:+ t := by
  unfold splitMinus
  split
  · exact List.suffix_cons _ _
  · exact List.suffix_rfl

theorem suffix_of_exponent {c d : Cursor} {n : Int8} (h : exponent extent c = .ok (n, d)) :
    d.rest <:+ c.rest := by
  unfold exponent at h
  split at h
  · rename_i rest hrest
    dsimp only at h
    split at h
    · split at h
      · cases h
        exact List.suffix_rfl
      · cases h
    · split at h
      · cases h
      · split at h
        · cases h
        · cases h
          rw [hrest]
          exact ((List.dropWhile_suffix _).trans (suffix_splitMinus _)).trans (List.suffix_cons _ _)
  · cases h
    exact List.suffix_rfl

theorem suffix_of_factor (hg : Consumes group) {c d : Cursor} {f : UnitFactor}
    (h : factor extent group c = .ok (f, d)) :
    d.rest <:+ c.rest ∧ d.rest.length < c.rest.length := by
  obtain ⟨⟨term, d₁⟩, hterm, h⟩ := Except.bind_eq_ok.1 h
  obtain ⟨⟨n, d₂⟩, hn, h⟩ := Except.bind_eq_ok.1 h
  cases h
  have hp := suffix_of_primary hg hterm
  have he := suffix_of_exponent hn
  exact ⟨he.trans hp.1, Nat.lt_of_le_of_lt he.length_le hp.2⟩

theorem suffix_of_sign? {t rest : Text} {below : Bool} (h : sign? t = some (below, rest)) :
    rest <:+ t ∧ rest.length < t.length := by
  unfold sign? at h
  split at h <;> cases h <;> exact ⟨List.suffix_cons _ _, by simp⟩

theorem consumes_factors (hg : Consumes group) (rounds : Nat) (e : UnitExpr) :
    Consumes fun c => factors extent group rounds c e := by
  induction rounds generalizing e with
  | zero =>
    intro c e' d h
    cases h
    exact List.suffix_rfl
  | succ rounds ih =>
    intro c e' d h
    simp only [factors] at h
    split at h
    · cases h
      exact List.suffix_rfl
    · rename_i below rest hsign
      split at h
      · cases h
        exact List.suffix_rfl
      · split at h
        · rename_i f d₁ hf
          have hrest := (suffix_of_factor hg hf).1
          exact ((ih _ h).trans hrest).trans (suffix_of_sign? hsign).1
        · split at h
          · cases h
            exact List.suffix_rfl
          · cases h

/-- **An expression leaves a suffix of the text**, at every depth of groups. -/
theorem consumes_expression (depth : Nat) : Consumes (expression extent depth) := by
  induction depth with
  | zero =>
    intro c e d h
    cases h
  | succ depth ih =>
    intro c e d h
    obtain ⟨⟨f, d₁⟩, hf, h⟩ := Except.bind_eq_ok.1 h
    exact (consumes_factors ih _ _ h).trans (suffix_of_factor ih hf).1

theorem suffix_of_scan? {known : String → Bool} {t rest : Text} {e : UnitExpr}
    (h : scan? known t = some (e, rest)) : rest <:+ t := by
  unfold scan? at h
  split at h
  · split at h
    · rename_i hread
      cases h
      exact consumes_expression _ hread
    · cases h
  · cases h

end UnitExpr

theorem UnitSystem.suffix_of_scan? {s : UnitSystem} {t rest : Text} {u : MeasureUnit}
    (h : s.scan? t = some (.ok (u, rest))) : rest <:+ t := by
  unfold UnitSystem.scan? at h
  obtain ⟨⟨e, rest'⟩, he, h⟩ := Option.map_eq_some_iff.1 h
  obtain ⟨u', -, h⟩ := Except.bind_eq_ok.1 h
  cases h
  exact UnitExpr.suffix_of_scan? he

end QuantityCalc
