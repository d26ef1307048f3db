import QuantityCalc.Proofs.Expression.Dimensions

/-!
# Dimensions of powers and roots

An integer power of a quantity multiplies its exponents, and a root divides them, also where a
shortcut is taken: for plain numbers, for the exponents zero and one, and for roots of a negative
degree, which are reciprocals. Powers fail for no other reason than exponents that leave their
range, and roots have no dimension if and only if the degree does not divide all exponents
(`exponents_powers_roots`).
-/

namespace QuantityCalc.Quantity

open Exponents

variable {q r : Quantity} {n : Int8} {e : UnitError} {value : Float} {v : Exponents}

theorem exponents_of_coherent (h : coherent value (Dimension.ofInts? v) = .ok r) :
    r.exponents = v := by
  cases hd : Dimension.ofInts? v with
  | none =>
    rw [hd] at h
    cases h
  | some d =>
    rw [hd] at h
    cases h
    exact Dimension.ofInts?_eq_some_iff.1 hd

theorem coherent_eq_error_iff :
    coherent value (Dimension.ofInts? v) = .error e ↔ e = .overflow ∧ ¬v.Fits := by
  rw [← Dimension.ofInts?_eq_none_iff]
  cases hd : Dimension.ofInts? v with
  | none => simp [coherent, eq_comm]
  | some d => simp [coherent]

theorem exponents_of_div {p : Quantity} (h : p.div q = .ok r) :
    r.exponents = p.exponents - q.exponents := by
  unfold div at h
  split at h
  · rename_i hq
    cases h
    rw [Postfix.exponents_of_isPlain hq, sub_zero]
    rfl
  · exact exponents_of_coherent h

/-! ## Powers -/

/-- **A power multiplies the exponents.** -/
theorem exponents_of_pow (h : q.pow n = .ok r) : r.exponents = times n.toInt q.exponents := by
  unfold pow at h
  split at h
  · rename_i hn
    cases h
    rw [hn]
    exact Dimension.exponents_one.trans (zero_times _).symm
  split at h
  · rename_i hn
    cases h
    rw [hn]
    exact (one_times _).symm
  split at h
  · rename_i hplain
    cases h
    rw [Postfix.exponents_of_isPlain hplain, times_zero]
    exact Dimension.exponents_one
  split at h
  · cases h
  · rw [Dimension.pow?_eq] at h
    exact exponents_of_coherent h

/-- **A power fails only if an exponent leaves its range**, for quantities with a dimension. -/
theorem pow_eq_error_iff (hdimension : q.exponents ≠ 0) (haffine : q.unit.isAffine = false)
    (hn₀ : n ≠ 0) (hn₁ : n ≠ 1) :
    q.pow n = .error e ↔ e = .overflow ∧ ¬(times n.toInt q.exponents).Fits := by
  have hplain : ¬q.unit.isPlain = true := fun h => hdimension (Postfix.exponents_of_isPlain h)
  have haffine : ¬q.unit.isAffine = true := Bool.eq_false_iff.1 haffine
  rw [pow, if_neg hn₀, if_neg hn₁, if_neg hplain, if_neg haffine, Dimension.pow?_eq]
  exact coherent_eq_error_iff

/-! ## Roots -/

theorem toInt_neg_of_ne (hn : n ≠ -128) : (-n).toInt = -n.toInt := by
  have hle := n.le_toInt
  have hlt := n.toInt_lt
  have hne : n.toInt ≠ -128 := fun h => hn (Int8.toInt.inj h)
  rw [Int8.toInt_neg]
  exact Int.bmod_eq_of_le (by omega) (by omega)

theorem exponents_of_positiveRoot (hn : 0 < n) (h : q.positiveRoot n = .ok r) :
    times n.toInt r.exponents = q.exponents := by
  unfold positiveRoot at h
  split at h
  · rename_i hone
    cases h
    rw [hone]
    exact one_times _
  split at h
  · cases h
  cases hd : q.dimension.root? n with
  | none =>
    rw [hd] at h
    cases h
  | some d =>
    rw [hd] at h
    obtain ⟨value, -, h⟩ := Except.bind_eq_ok.1 h
    cases h
    -- the root of a dimensionless quantity is a plain number, which has the dimension of the root
    have hunit : (if d = .one then MeasureUnit.plain else .coherent d).dimension = d := by
      split
      · rename_i hone
        exact hone.symm
      · rfl
    rw [Quantity.exponents, Quantity.dimension, hunit]
    have hne : n ≠ 0 := by
      rintro rfl
      exact absurd hn (by decide)
    have hpos : n ≠ -1 := by
      rintro rfl
      exact absurd hn (by decide)
    exact (Dimension.root?_eq_some_iff hne fun h => absurd h hpos).1 hd

/-- **A root divides the exponents**, also for a negative degree. -/
theorem exponents_of_root (h : q.root n = .ok r) : times n.toInt r.exponents = q.exponents := by
  unfold root at h
  split at h
  · cases h
  rename_i hzero
  split at h
  · rename_i hneg
    split at h
    · cases h
    · rename_i hlowest
      obtain ⟨p, hp, h⟩ := Except.bind_eq_ok.1 h
      have hopposite : (-n).toInt = -n.toInt := toInt_neg_of_ne hlowest
      have hpos : 0 < -n := by
        rw [Int8.lt_iff_toInt_lt] at hneg ⊢
        rw [hopposite]
        exact Int.neg_pos_of_neg hneg
      have hone : (plain 1).exponents = 0 := Dimension.exponents_one
      rw [exponents_of_div h, hone, zero_sub, ← exponents_of_positiveRoot hpos hp, hopposite,
        ← neg_times_neg, neg_neg]
  · rename_i hneg
    refine exponents_of_positiveRoot ?_ h
    rw [Int8.lt_iff_toInt_lt] at hneg ⊢
    have hne := Dimension.toInt_ne_zero hzero
    exact lt_of_le_of_ne (not_lt.1 hneg) hne.symm

/-- **A root has no dimension** if and only if the degree does not divide all exponents. -/
theorem root_eq_notRootable_iff (haffine : q.unit.isAffine = false) (hn : 1 < n) {unit : String}
    {degree : Int8} : q.root n = .error (.notRootable unit degree) ↔
      (unit = q.unit.symbol ∧ degree = n) ∧ ∃ b, ¬n.toInt ∣ q.exponents b := by
  have hne : n ≠ 0 := by
    rintro rfl
    exact absurd hn (by decide)
  have hone : n ≠ 1 := by
    rintro rfl
    exact absurd hn (by decide)
  have hneg : ¬n < 0 := by
    rw [Int8.lt_iff_toInt_lt] at hn ⊢
    change 1 < n.toInt at hn
    change ¬n.toInt < 0
    omega
  have haffine : ¬q.unit.isAffine = true := Bool.eq_false_iff.1 haffine
  rw [root, if_neg hne, if_neg hneg, positiveRoot, if_neg hone, if_neg haffine, Quantity.exponents,
    ← Dimension.root?_eq_none_iff hne]
  cases hd : q.dimension.root? n with
  | none => simp [eq_comm]
  | some d =>
    simp only [reduceCtorEq, and_false, iff_false]
    intro h
    -- what is left to fail is the root of the value, which has another error
    cases hvalue : rootValue q.coherentValue n with
    | ok value =>
      rw [hvalue] at h
      cases h
    | error e =>
      rw [hvalue] at h
      cases h
      unfold rootValue at hvalue
      simp only at hvalue
      split at hvalue
      · split at hvalue <;> cases hvalue
      · cases hvalue

/-- **Dimensions of powers and roots.** A power has `n` times the exponents of its base, and for
bases with a dimension and without an offset it fails only because these leave the range of signed
bytes. A root has exponents of which `n` times are those of its base. A degree above one is refused
as not dividing the dimension if and only if it does not divide one of the exponents. -/
theorem exponents_powers_roots (q : Quantity) (n : Int8) :
    (∀ r, q.pow n = .ok r → r.exponents = times n.toInt q.exponents) ∧
    (q.exponents ≠ 0 → q.unit.isAffine = false → n ≠ 0 → n ≠ 1 → ∀ e, q.pow n = .error e →
      e = .overflow ∧ ¬(times n.toInt q.exponents).Fits) ∧
    (∀ r, q.root n = .ok r → times n.toInt r.exponents = q.exponents) ∧
    (q.unit.isAffine = false → 1 < n → ((∃ unit degree,
      q.root n = .error (.notRootable unit degree)) ↔ ∃ b, ¬n.toInt ∣ q.exponents b)) := by
  refine ⟨fun r h => exponents_of_pow h, fun hdimension haffine hn₀ hn₁ e h => ?_,
    fun r h => exponents_of_root h, fun haffine hn => ⟨?_, fun hb => ?_⟩⟩
  · exact (pow_eq_error_iff hdimension haffine hn₀ hn₁).1 h
  · rintro ⟨unit, degree, h⟩
    exact ((root_eq_notRootable_iff haffine hn).1 h).2
  · exact ⟨_, _, (root_eq_notRootable_iff haffine hn).2 ⟨⟨rfl, rfl⟩, hb⟩⟩

/-- Nine square metres. -/
def nineSquares : Quantity := ⟨9, .coherent (.ofPairs [(.length, 2)])⟩

theorem exponents_powers_roots_squares :
    (∃ r, nineSquares.pow 3 = .ok r ∧ r.exponents .length = 6) ∧
    (∃ e, nineSquares.pow 100 = .error e ∧ e = .overflow) ∧
    (∃ r, nineSquares.root (-2) = .ok r ∧ r.exponents .length = -1) ∧
    ∃ unit degree, nineSquares.root 3 = .error (.notRootable unit degree) := by
  have hlength : nineSquares.exponents .length = 2 := by decide
  obtain ⟨r, hr⟩ := Except.exists_of_isOk (show (nineSquares.pow 3).isOk by decide +kernel)
  obtain ⟨p, hp⟩ := Except.exists_of_isOk (show (nineSquares.root (-2)).isOk by decide +kernel)
  have herror : nineSquares.pow 100 = .error .overflow := by rfl
  refine ⟨⟨r, hr, ?_⟩, ⟨_, herror, ?_⟩, ⟨p, hp, ?_⟩, ?_⟩
  · rw [(exponents_powers_roots nineSquares 3).1 r hr, times, hlength]
    rfl
  · exact ((exponents_powers_roots nineSquares 100).2.1 (fun h => absurd (congrFun h .length)
      (by decide)) (by decide +kernel) (by decide) (by decide) _ herror).1
  · have hroot := congrFun ((exponents_powers_roots nineSquares (-2)).2.2.1 p hp) .length
    have htwo : (-2 : Int8).toInt = -2 := rfl
    rw [times, hlength, htwo] at hroot
    omega
  · refine ((exponents_powers_roots nineSquares 3).2.2.2 (by decide +kernel) (by decide)).2
      ⟨.length, ?_⟩
    rw [hlength]
    decide

end QuantityCalc.Quantity
