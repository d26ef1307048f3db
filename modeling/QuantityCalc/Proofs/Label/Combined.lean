import QuantityCalc.Proofs.Label.Unit
import QuantityCalc.Proofs.Unit.Occurrences
import QuantityCalc.Quantity.Basic

/-!
# The label of a conversion to another dimension

`Quantity.convertOrCombine` labels a quantity with the text `target*(source/target)`, where the
target and the source are unit expressions. The second target stands behind the slash without
parentheses, so the slash divides by its first factor only, and the signs in it go on to multiply or
divide the group (`isExpression_pasted`). So the label has the dimension of the source if the
dimension of the target is that of its first factor, as for a symbol, a power or a group, and not
otherwise (`exponents_of_combined`).
-/

namespace QuantityCalc

open Text UnitExpr UnitTerm

/-! ## A text behind a sign -/

namespace UnitExpr

variable {t source target : Text} {e e' : UnitExpr} {sign : Char} {below : Bool}

/-- **An expression behind a sign** is no factor of its own: its first factor stands behind the
sign, and the others keep theirs. -/
theorem isExpression_pasted {t' : Text} {e' : UnitExpr} (he : IsExpression t e)
    (hsign : IsSign sign below) (he' : IsExpression t' e') : ∃ f fs, e'.numerator = f :: fs ∧
      IsExpression (t ++ sign :: t')
        ⟨(e.push below f).numerator ++ fs, (e.push below f).denominator ++ e'.denominator⟩ := by
  induction he' using IsExpression.induct with
  | factor hf => exact ⟨_, [], rfl, by simpa using he.push hsign hf⟩
  | @push _ _ _ _ below' _ _ hsign' hf' ih =>
    obtain ⟨f, fs, hnumerator, h⟩ := ih
    have hpush := h.push hsign' hf'
    cases below' with
    | false =>
      refine ⟨f, fs ++ [_], ?_, by simpa [push] using hpush⟩
      simp [push, hnumerator]
    | true =>
      refine ⟨f, fs, ?_, by simpa [push] using hpush⟩
      simp [push, hnumerator]

/-- The text `target*(source/target)`. -/
def combined (target source : Text) : Text :=
  target ++ '*' :: ('(' :: (source ++ '/' :: target) ++ [')'])

/-- **The text `target*(source/target)` is an expression.** In its group, the first factor of the
target is in the denominator. -/
theorem isExpression_combined (hsource : IsExpression source e) (htarget : IsExpression target e') :
    ∃ f fs, e'.numerator = f :: fs ∧ IsExpression (combined target source)
      ⟨f :: fs ++ [(.group (e.numerator ++ fs) (e.denominator ++ f :: e'.denominator), 1)],
        e'.denominator⟩ := by
  obtain ⟨f, fs, hnumerator, hgroup⟩ := isExpression_pasted hsource .slash htarget
  have hfactor := IsFactor.mk (.group hgroup) .one
  have hlabel := htarget.push .star hfactor
  refine ⟨f, fs, hnumerator, ?_⟩
  simpa [combined, push, hnumerator] using hlabel

theorem single?_eq_none_of_length (h : 2 ≤ e.numerator.length) : e.single? = none := by
  cases hsingle : e.single? with
  | none => rfl
  | some name =>
    rw [eq_symbol_of_single? hsingle, List.length_singleton] at h
    omega

end UnitExpr

/-! ## Weighted sums -/

namespace UnitTerm

@[simp] theorem factorsOccurrences_append (below : Bool) (fs gs : List UnitFactor) :
    factorsOccurrences below (fs ++ gs) =
      factorsOccurrences below fs ++ factorsOccurrences below gs := by
  induction fs with
  | nil => rfl
  | cons f fs ih =>
    rw [List.cons_append, factorsOccurrences, factorsOccurrences, ih, List.append_assoc]

end UnitTerm

namespace UnitSystem

variable {s : UnitSystem} {e : UnitExpr} {f : UnitFactor} {p : UnitProduct} {q : Quantity}
  {target u : MeasureUnit} {t : Text}

/-- A slash inverts a factor. -/
theorem weightedSum_below (f : UnitFactor) :
    s.weightedSum (factorOccurrences true f) = -s.weightedSum (factorOccurrences false f) := by
  obtain ⟨term, n⟩ := f
  funext b
  simp only [factorOccurrences, Pi.neg_apply, weightedSum_within, Occurrence.scale, if_true,
    Bool.false_eq_true, if_false, neg_mul]

/-- A term with the exponent one counts as it is. -/
theorem weightedSum_one (term : UnitTerm) :
    s.weightedSum (factorOccurrences false (term, 1)) = s.weightedSum term.occurrences := by
  funext b
  rw [factorOccurrences, weightedSum_within]
  simp [Occurrence.scale]

theorem exponents_of_factor (h : s.factorProduct f = .ok p) :
    p.dimension.exponents = s.weightedSum (factorOccurrences false f) := by
  obtain ⟨term, n⟩ := f
  obtain ⟨a, ha, hp⟩ := Except.bind_eq_ok.1 h
  funext b
  rw [factorOccurrences, weightedSum_within, ← exponents_of_termProduct ha, exponents_of_pow hp,
    Occurrence.scale, if_neg (by simp), mul_comm]

/-- The weighted sum of the text `target*(source/target)`: each factor of the target counts twice,
except the first one. -/
theorem weightedSum_combined {e e' : UnitExpr} {fs : List UnitFactor}
    (hnumerator : e'.numerator = f :: fs) (b : BaseDimension) :
    s.weightedSum (⟨f :: fs ++ [(.group (e.numerator ++ fs) (e.denominator ++ f :: e'.denominator),
        1)], e'.denominator⟩ : UnitExpr).occurrences b =
      s.weightedSum e.occurrences b +
        2 * (s.weightedSum e'.occurrences b - s.weightedSum (factorOccurrences false f) b) := by
  simp only [UnitExpr.occurrences, UnitTerm.occurrences, hnumerator, factorsOccurrences_append,
    factorsOccurrences, weightedSum_append, weightedSum_nil, weightedSum_one, weightedSum_below,
    Pi.add_apply, Pi.neg_apply, Pi.zero_apply]
  omega

/-! ## Units and their labels -/

/-- The label of a unit that a text denotes is an expression with the exponents of the unit. -/
theorem isExpression_of_parse (h : s.parse t = .ok u) : ∃ e,
    IsExpression u.symbol.toList e ∧ u.dimension.exponents = s.weightedSum e.occurrences := by
  obtain ⟨e, he, h⟩ := Except.bind_eq_ok.1 h
  have he := UnitExpr.isExpression_of_parse he
  cases hsingle : e.single? with
  | some name =>
    have hlookup := lookup?_of_resolve hsingle h
    rw [eq_symbol_of_single? hsingle] at he
    refine ⟨.symbol name, ?_, ?_⟩
    · rw [symbol_of_lookup? hlookup]
      exact isExpression_symbol (isSymbol_of_isExpression he List.mem_cons_self)
    · rw [weightedSum_symbol, symbolExponents, hlookup]
      rfl
  | none =>
    obtain ⟨p, hp, rfl⟩ := exists_product hsingle h
    refine ⟨e, ?_, exponents_of_termProduct hp⟩
    rwa [String.toList_ofList]

/-- Whether a unit is that of plain numbers, or a text denotes it. -/
def Written (s : UnitSystem) (u : MeasureUnit) : Prop := u = .plain ∨ ∃ t, s.parse t = .ok u

theorem Written.isExpression (h : s.Written u) : ∃ e,
    IsExpression u.shown.toList e ∧ u.dimension.exponents = s.weightedSum e.occurrences := by
  rcases h with rfl | ⟨t, h⟩
  · have hone : IsNumber ['1'] 1 :=
      ⟨by simp, List.forall_mem_singleton.2 rfl, rfl, Nat.one_pos⟩
    have hfactor := IsFactor.mk (.integer hone (by decide)) .one
    refine ⟨_, .factor hfactor, ?_⟩
    exact Dimension.exponents_one
  · obtain ⟨e, he, hexponents⟩ := isExpression_of_parse h
    have hne : u.symbol ≠ "" := by
      intro hempty
      rw [hempty] at he
      exact ne_nil_of_isExpression he rfl
    rw [MeasureUnit.shown, if_neg hne]
    exact ⟨e, he, hexponents⟩

theorem toList_convertOrCombine (hne : q.dimension ≠ target.dimension) :
    (q.convertOrCombine target).unit.symbol.toList =
      combined target.symbol.toList q.unit.shown.toList := by
  have hnot : ¬q.unit.Convertible target := hne
  simp [Quantity.convertOrCombine, if_neg hnot, combined, toString]

/-- **What the label of a conversion to another dimension denotes**: the dimension of the source,
and twice what the target has besides its first factor. So it denotes the dimension of the source if
and only if the first factor has the dimension of the target. -/
theorem exponents_of_combined (hsource : s.Written q.unit) (htarget : s.parse t = .ok target)
    (hne : q.dimension ≠ target.dimension)
    (h : s.parse (q.convertOrCombine target).unit.symbol.toList = .ok u) :
    ∃ e f fs p, UnitExpr.parse target.symbol.toList = .ok e ∧ e.numerator = f :: fs ∧
      s.factorProduct f = .ok p ∧
      (∀ b, u.dimension.exponents b = q.dimension.exponents b +
        2 * (target.dimension.exponents b - p.dimension.exponents b)) ∧
      (u.dimension = q.dimension ↔ p.dimension = target.dimension) := by
  obtain ⟨e, he, hq⟩ := hsource.isExpression
  obtain ⟨e', he', ht⟩ := isExpression_of_parse htarget
  obtain ⟨f, fs, hnumerator, hlabel⟩ := isExpression_combined he he'
  rw [toList_convertOrCombine hne] at h
  obtain ⟨e₀, he₀, hresolve⟩ := Except.bind_eq_ok.1 h
  cases (parse_eq_of_isExpression hlabel).symm.trans he₀
  have hsingle : UnitExpr.single? ⟨f :: fs ++ [(.group (e.numerator ++ fs)
      (e.denominator ++ f :: e'.denominator), 1)], e'.denominator⟩ = none :=
    single?_eq_none_of_length (by simp)
  obtain ⟨p₀, hp₀, rfl⟩ := exists_product hsingle hresolve
  obtain ⟨a, ha, -⟩ := Except.bind_eq_ok.1 hp₀
  obtain ⟨p, hp, -⟩ := Except.bind_eq_ok.1 ha
  have hexponents (b : BaseDimension) : p₀.dimension.exponents b = q.dimension.exponents b +
      2 * (target.dimension.exponents b - p.dimension.exponents b) := by
    rw [exponents_of_termProduct hp₀, ht, exponents_of_factor hp]
    refine (weightedSum_combined hnumerator b).trans ?_
    rw [← hq]
    rfl
  refine ⟨e', f, fs, p, parse_eq_of_isExpression he', hnumerator, hp, hexponents, ?_⟩
  rw [← Dimension.exponents_injective.eq_iff, ← Dimension.exponents_injective.eq_iff,
    funext_iff, funext_iff]
  refine forall_congr' fun b => ?_
  rw [hexponents b]
  omega

theorem exponents_of_combined_area :
    let q : Quantity := ⟨6, ⟨"s", .base .time, 1, 0, .named⟩⟩
    let target : MeasureUnit := ⟨"m^2", { length := 2 }, 1, 0, .expression⟩
    international.Written q.unit ∧ international.parse "m^2".toList = .ok target ∧
      q.dimension ≠ target.dimension ∧
      ∃ u, international.parse (q.convertOrCombine target).unit.symbol.toList = .ok u ∧
        u.dimension = q.dimension := by
  intro q target
  have hsource : international.Written q.unit := .inr ⟨"s".toList, by decide +kernel⟩
  have htarget : international.parse "m^2".toList = .ok target := by decide +kernel
  have hne : q.dimension ≠ target.dimension := by decide
  have h : international.parse (q.convertOrCombine target).unit.symbol.toList =
      .ok ⟨"m^2*(s/m^2)", .base .time, 1, 0, .expression⟩ := by
    decide +kernel
  obtain ⟨e, f, fs, p, he, hnumerator, hp, -, hiff⟩ :=
    exponents_of_combined hsource htarget hne h
  have hparse : UnitExpr.parse "m^2".toList = .ok ⟨[(.symbol "m", 2)], []⟩ := by rfl
  cases hparse.symm.trans he
  cases hnumerator
  have hfirst : (international.factorProduct (.symbol "m", 2)).map (·.dimension) =
      .ok target.dimension := by
    decide +kernel
  rw [hp] at hfirst
  exact ⟨hsource, htarget, hne, _, h, hiff.2 (Except.ok.inj hfirst)⟩

/-- Seconds that are to become metres per second get a label that is read as a frequency. -/
theorem not_source_of_combined :
    let q : Quantity := ⟨6, ⟨"s", .base .time, 1, 0, .named⟩⟩
    let target : MeasureUnit := ⟨"m/s", { length := 1, time := -1 }, 1, 0, .expression⟩
    international.parse "s".toList = .ok q.unit ∧ international.parse "m/s".toList = .ok target ∧
      q.dimension ≠ target.dimension ∧ (q.convertOrCombine target).unit.symbol = "m/s*(s/m/s)" ∧
      ∃ u, international.parse (q.convertOrCombine target).unit.symbol.toList = .ok u ∧
        u.dimension = { time := -1 } ∧ u.dimension ≠ q.dimension := by
  intro q target
  have hsource : international.parse "s".toList = .ok q.unit := by decide +kernel
  have htarget : international.parse "m/s".toList = .ok target := by decide +kernel
  have h : international.parse (q.convertOrCombine target).unit.symbol.toList =
      .ok ⟨"m/s*(s/m/s)", { time := -1 }, 1, 0, .expression⟩ := by
    decide +kernel
  exact ⟨hsource, htarget, by decide, rfl, _, h, rfl, by decide⟩

end UnitSystem

end QuantityCalc
