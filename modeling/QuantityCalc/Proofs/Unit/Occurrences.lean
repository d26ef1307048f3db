import QuantityCalc.Proofs.Dimension.Exact
import QuantityCalc.Proofs.Unit.Grammar
import QuantityCalc.Unit.International
import Mathlib.Algebra.BigOperators.Group.List.Basic
import Mathlib.Algebra.BigOperators.Ring.List

/-!
# Occurrences of symbols

A symbol occurs in a unit expression at the end of a path of factors. The exponents on the path are
multiplied, and each factor of it that stands behind a slash inverts the symbol: that is the weight
of the occurrence. The exponents of a unit are the weighted sum of those of the occurrences
(`exponents_of_parse`), in integers without bounds.
-/

namespace QuantityCalc

/-- A symbol at a place in an expression. -/
structure Occurrence where
  /-- The symbol. -/
  name : String
  /-- The factors around the symbol, from the outside: whether each is behind a slash, and its
  exponent. -/
  path : List (Bool × Int8)

namespace Occurrence

variable {below : Bool} {n : Int8} {o : Occurrence}

/-- The occurrence as it stands in a further factor. -/
def within (below : Bool) (n : Int8) (o : Occurrence) : Occurrence :=
  { o with path := (below, n) :: o.path }

/-- The product of the exponents on the path, negated once for each slash. -/
def weight (o : Occurrence) : Int :=
  (-1) ^ o.path.countP (·.1) * (o.path.map (·.2.toInt)).prod

/-- What a factor contributes to the weights of the occurrences in it. -/
def scale (below : Bool) (n : Int8) : Int := if below then -n.toInt else n.toInt

@[simp] theorem name_within : (o.within below n).name = o.name := rfl

theorem weight_within : (o.within below n).weight = scale below n * o.weight := by
  cases below <;> simp [weight, within, scale, pow_succ, mul_left_comm]

end Occurrence

namespace UnitTerm

mutual

/-- The occurrences of symbols in a term. -/
def occurrences : UnitTerm → List Occurrence
  | .symbol name => [⟨name, []⟩]
  | .integer _ => []
  | .group numerator denominator =>
    factorsOccurrences false numerator ++ factorsOccurrences true denominator

/-- The occurrences of symbols in a factor. -/
def factorOccurrences (below : Bool) : UnitTerm × Int8 → List Occurrence
  | (term, n) => term.occurrences.map (.within below n)

/-- The occurrences of symbols in factors that are behind slashes, or are not. -/
def factorsOccurrences (below : Bool) : List (UnitTerm × Int8) → List Occurrence
  | [] => []
  | f :: fs => factorOccurrences below f ++ factorsOccurrences below fs

end

end UnitTerm

/-- The occurrences of symbols in an expression. -/
def UnitExpr.occurrences (e : UnitExpr) : List Occurrence :=
  UnitTerm.occurrences (.group e.numerator e.denominator)

namespace UnitSystem

open UnitTerm

variable {s : UnitSystem}

/-- The exponents of what a symbol denotes. -/
def symbolExponents (s : UnitSystem) (name : String) : Exponents :=
  (s.lookup? name).elim 0 (·.dimension.exponents)

/-- The weighted sum of the exponents of symbols. -/
def weightedSum (s : UnitSystem) (os : List Occurrence) : Exponents := fun b =>
  (os.map fun o => o.weight * s.symbolExponents o.name b).sum

@[simp] theorem weightedSum_nil : s.weightedSum [] = 0 := rfl

@[simp] theorem weightedSum_append (os os' : List Occurrence) :
    s.weightedSum (os ++ os') = s.weightedSum os + s.weightedSum os' := by
  funext b
  simp [weightedSum]

theorem weightedSum_within (below : Bool) (n : Int8) (os : List Occurrence) (b : BaseDimension) :
    s.weightedSum (os.map (.within below n)) b = Occurrence.scale below n * s.weightedSum os b := by
  simp only [weightedSum, List.map_map, ← List.sum_map_mul_left]
  congr 2
  funext o
  simp only [Function.comp_apply, Occurrence.weight_within, Occurrence.name_within, mul_assoc]

/-! ## Products -/

variable {a p q : UnitProduct} {below : Bool} {n : Int8}

theorem exponents_of_combine (h : a.combine below p = .ok q) :
    q.dimension.exponents = if below then a.dimension.exponents - p.dimension.exponents
      else a.dimension.exponents + p.dimension.exponents := by
  unfold UnitProduct.combine at h
  split at h
  · rename_i d hd
    cases h
    cases below with
    | false => exact Dimension.ofInts?_eq_some_iff.1 hd
    | true => exact Dimension.ofInts?_eq_some_iff.1 hd
  · cases h

theorem exponents_of_pow (h : a.pow n = .ok p) (b : BaseDimension) :
    p.dimension.exponents b = a.dimension.exponents b * n.toInt := by
  unfold UnitProduct.pow at h
  split at h
  · rename_i d hd
    cases h
    exact congrFun (Dimension.ofInts?_eq_some_iff.1 hd) b
  · cases h

mutual

/-- **The exponents of a product are the weighted sum of those of its symbols.** -/
theorem exponents_of_termProduct : ∀ {term : UnitTerm} {p : UnitProduct},
    s.termProduct term = .ok p → p.dimension.exponents = s.weightedSum term.occurrences
  | .symbol name, p, h => by
    rw [termProduct] at h
    split at h
    · cases h
    · rename_i u hu
      split at h
      · cases h
      · cases h
        funext b
        simp [occurrences, weightedSum, Occurrence.weight, symbolExponents, hu]
  | .integer n, p, h => by
    cases h
    rw [occurrences, weightedSum_nil]
    exact Dimension.exponents_one
  | .group numerator denominator, p, h => by
    obtain ⟨a, ha, h⟩ := Except.bind_eq_ok.1 h
    rw [exponents_of_factorsProduct h, exponents_of_factorsProduct ha, occurrences,
      weightedSum_append, Dimension.exponents_one, zero_add]

/-- A factor is multiplied by, or divided by, as a whole. -/
theorem exponents_of_factorProduct {below : Bool} : ∀ {f : UnitTerm × Int8} {a p q : UnitProduct},
    s.factorProduct f = .ok p → a.combine below p = .ok q →
      q.dimension.exponents = a.dimension.exponents + s.weightedSum (factorOccurrences below f)
  | (term, n), a, p, q, hp, hq => by
    obtain ⟨r, hr, hp⟩ := Except.bind_eq_ok.1 hp
    rw [exponents_of_combine hq]
    funext b
    rw [Pi.add_apply, factorOccurrences, weightedSum_within, ← exponents_of_termProduct hr]
    cases below with
    | false => simp [exponents_of_pow hp, Occurrence.scale, mul_comm]
    | true => simp [exponents_of_pow hp, Occurrence.scale, mul_comm, sub_eq_add_neg]

theorem exponents_of_factorsProduct {below : Bool} :
    ∀ {fs : List (UnitTerm × Int8)} {a p : UnitProduct}, s.factorsProduct below a fs = .ok p →
      p.dimension.exponents = a.dimension.exponents + s.weightedSum (factorsOccurrences below fs)
  | [], a, p, h => by
    cases h
    rw [factorsOccurrences, weightedSum_nil, add_zero]
  | f :: fs, a, p, h => by
    rw [factorsProduct] at h
    obtain ⟨b, hb, h⟩ := Except.bind_eq_ok.1 h
    obtain ⟨c, hc, h⟩ := Except.bind_eq_ok.1 h
    rw [exponents_of_factorsProduct h, exponents_of_factorProduct hb hc, factorsOccurrences,
      weightedSum_append, add_assoc]

end

mutual

/-- **The symbols of a product denote units without an offset.** -/
theorem lookup?_of_termProduct : ∀ {term : UnitTerm} {p : UnitProduct},
    s.termProduct term = .ok p →
      ∀ o ∈ term.occurrences, ∃ u, s.lookup? o.name = some u ∧ u.isAffine = false
  | .symbol name, p, h => by
    rw [termProduct] at h
    split at h
    · cases h
    · rename_i u hu
      split at h
      · cases h
      · rename_i haffine
        rw [occurrences, List.forall_mem_singleton]
        exact ⟨u, hu, Bool.eq_false_iff.2 haffine⟩
  | .integer n, p, h => by nofun
  | .group numerator denominator, p, h => by
    obtain ⟨a, ha, h⟩ := Except.bind_eq_ok.1 h
    exact List.forall_mem_append.2 ⟨lookup?_of_factorsProduct ha, lookup?_of_factorsProduct h⟩

theorem lookup?_of_factorProduct {below : Bool} : ∀ {f : UnitTerm × Int8} {p : UnitProduct},
    s.factorProduct f = .ok p →
      ∀ o ∈ factorOccurrences below f, ∃ u, s.lookup? o.name = some u ∧ u.isAffine = false
  | (term, n), p, h => by
    obtain ⟨a, ha, -⟩ := Except.bind_eq_ok.1 h
    rw [factorOccurrences, List.forall_mem_map]
    exact lookup?_of_termProduct ha

theorem lookup?_of_factorsProduct {below : Bool} :
    ∀ {fs : List (UnitTerm × Int8)} {a p : UnitProduct}, s.factorsProduct below a fs = .ok p →
      ∀ o ∈ factorsOccurrences below fs, ∃ u, s.lookup? o.name = some u ∧ u.isAffine = false
  | [], a, p, h => by nofun
  | f :: fs, a, p, h => by
    rw [factorsProduct] at h
    obtain ⟨b, hb, h⟩ := Except.bind_eq_ok.1 h
    obtain ⟨c, -, h⟩ := Except.bind_eq_ok.1 h
    exact List.forall_mem_append.2 ⟨lookup?_of_factorProduct hb, lookup?_of_factorsProduct h⟩

end

/-! ## Units -/

variable {e : UnitExpr} {label name : String} {t : Text} {u : MeasureUnit}

theorem weightedSum_symbol (name : String) :
    s.weightedSum (UnitExpr.symbol name).occurrences = s.symbolExponents name := by
  funext b
  simp [weightedSum, UnitExpr.occurrences, occurrences, factorsOccurrences, factorOccurrences,
    Occurrence.weight, Occurrence.within]

/-- What an expression that is no single symbol denotes is the product of what is in it. -/
theorem exists_product (hsingle : e.single? = none) (h : s.resolve e label = .ok u) :
    ∃ p, s.product e = .ok p ∧ u = ⟨label, p.dimension, p.factor, 0, .expression⟩ := by
  simp only [resolve, hsingle] at h
  obtain ⟨p, hp, h⟩ := Except.bind_eq_ok.1 h
  cases h
  exact ⟨p, hp, rfl⟩

/-- **The exponents of a unit are the weighted sum of those of the symbols that occur in its text**,
in integers without bounds. Unless the text is one symbol with the exponent one, neither the unit
nor one of the symbols has an offset. -/
theorem exponents_of_parse (h : s.parse t = .ok u) :
    ∃ e, UnitExpr.parse t = .ok e ∧
      (∀ b, (u.dimension.exponent b).toInt =
        (e.occurrences.map fun o => o.weight * s.symbolExponents o.name b).sum) ∧
      (∀ o ∈ e.occurrences, ∃ v, s.lookup? o.name = some v) ∧
      ((∀ name, e ≠ .symbol name) → u.isAffine = false ∧
        ∀ o ∈ e.occurrences, ∀ v, s.lookup? o.name = some v → v.isAffine = false) := by
  obtain ⟨e, he, h⟩ := Except.bind_eq_ok.1 h
  refine ⟨e, he, ?_⟩
  cases hsingle : e.single? with
  | some name =>
    have hu := lookup?_of_resolve hsingle h
    obtain rfl := UnitExpr.eq_symbol_of_single? hsingle
    refine ⟨fun b => ?_, ?_, fun hnot => absurd rfl (hnot name)⟩
    · have hsum := congrFun (s.weightedSum_symbol name) b
      rw [symbolExponents, hu] at hsum
      exact hsum.symm
    · rintro o ho
      cases List.mem_singleton.1 ho
      exact ⟨u, hu⟩
  | none =>
    obtain ⟨p, hp, rfl⟩ := exists_product hsingle h
    have hsymbols := lookup?_of_termProduct hp
    refine ⟨fun b => congrFun (exponents_of_termProduct hp) b, fun o ho => ?_, fun _ => ⟨?_, ?_⟩⟩
    · obtain ⟨v, hv, -⟩ := hsymbols o ho
      exact ⟨v, hv⟩
    · have hzero : ((0 : Float) != 0) = false := by decide +kernel
      exact hzero
    · intro o ho v hv
      obtain ⟨v', hv', haffine⟩ := hsymbols o ho
      rw [hv'] at hv
      cases hv
      exact haffine

theorem exponents_of_parse_nested :
    ∃ u e, international.parse "Kg/(m*s^-2)".toList = .ok u ∧
      UnitExpr.parse "Kg/(m*s^-2)".toList = .ok e ∧
      (e.occurrences.map fun o => (o.name, o.weight)) = [("Kg", 1), ("m", -1), ("s", 2)] ∧
      (∀ b, (u.dimension.exponent b).toInt =
        (e.occurrences.map fun o => o.weight * international.symbolExponents o.name b).sum) ∧
      u.dimension = { length := -1, mass := 1, time := 2 } ∧ u.isAffine = false := by
  have h : international.parse "Kg/(m*s^-2)".toList = .ok
      ⟨"Kg/(m*s^-2)", { length := -1, mass := 1, time := 2 }, 1, 0, .expression⟩ := by
    decide +kernel
  obtain ⟨e, he, hsum, -, hplain⟩ := exponents_of_parse h
  have hparse : UnitExpr.parse "Kg/(m*s^-2)".toList = .ok ⟨[(.symbol "Kg", 1)],
      [(.group [(.symbol "m", 1), (.symbol "s", -2)] [], 1)]⟩ := rfl
  obtain rfl := Except.ok.inj (hparse.symm.trans he)
  obtain ⟨haffine, -⟩ := hplain fun _ heq =>
    List.cons_ne_nil _ _ (congrArg UnitExpr.denominator heq)
  exact ⟨_, _, h, he, by decide, hsum, rfl, haffine⟩

end UnitSystem

end QuantityCalc
