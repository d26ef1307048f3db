import QuantityCalc.Proofs.Quantity.Powers

/-!
# Laws of dimensions

Products, quotients and powers of dimensions are exact (`Dimension.Exact`): their exponents are the
sums, differences and multiples as integers, and there is an overflow if and only if one of these is
no signed byte. A quotient undoes a product, and a root undoes a power (`div?_of_mul?`,
`root?_of_pow?`). A root is what has a given dimension as its power, if no lowest exponent is
divided by minus one (`root?_iff_pow?`).
-/

namespace QuantityCalc.Dimension

open Exponents (times)

variable {a b c : Dimension} {n : Int8}

/-- The dimension with the exponents `v`. If one of them is no signed byte, there is none, and a
quantity that would have it is an overflow. -/
structure Exact (d? : Option Dimension) (v : Exponents) : Prop where
  eq_some_iff : ∀ d, d? = some d ↔ ∀ i, (d.exponent i).toInt = v i
  eq_none_iff : d? = none ↔ ∃ i, v i < -128 ∨ 127 < v i
  overflow_iff : ∀ value e, Quantity.coherent value d? = .error e ↔
    e = .overflow ∧ ∃ i, v i < -128 ∨ 127 < v i

theorem not_fits_iff {v : Exponents} : ¬v.Fits ↔ ∃ i, v i < -128 ∨ 127 < v i := by
  rw [Exponents.Fits, not_forall]
  refine exists_congr fun i => ?_
  omega

theorem exact_ofInts? (v : Exponents) : Exact (ofInts? v) v where
  eq_some_iff _ := ofInts?_eq_some_iff.trans funext_iff
  eq_none_iff := ofInts?_eq_none_iff.trans not_fits_iff
  overflow_iff _ _ := Quantity.coherent_eq_error_iff.trans (and_congr_right fun _ => not_fits_iff)

/-- **A quotient undoes a product.** -/
theorem div?_of_mul? (h : a.mul? b = some c) : c.div? b = some a := by
  rw [mul?_eq, ofInts?_eq_some_iff] at h
  rw [div?_eq, ofInts?_eq_some_iff, h, add_sub_cancel_right]

/-- **A root is what has the dimension as its power.** -/
theorem root?_iff_pow? (hn : n ≠ 0) (hlowest : n = -1 → ∀ i, a.exponents i ≠ -128) :
    a.root? n = some b ↔ b.pow? n = some a := by
  rw [root?_eq_some_iff hn hlowest, pow?_eq, ofInts?_eq_some_iff, eq_comm]

/-- **A root undoes a power.** -/
theorem root?_of_pow? (hn : n ≠ 0) (h : a.pow? n = some b) : b.root? n = some a := by
  refine (root?_iff_pow? hn ?_).2 h
  -- the opposite of a signed byte is not the lowest one
  rintro rfl i hlowest
  rw [pow?_eq, ofInts?_eq_some_iff] at h
  have hopposite : b.exponents i = (-1 : Int8).toInt * a.exponents i := congrFun h i
  have hminus : (-1 : Int8).toInt = -1 := rfl
  rw [hlowest, hminus] at hopposite
  have hfits := fits_exponents a i
  omega

theorem root?_zero (a : Dimension) : a.root? 0 = none := if_neg fun h => h.1 rfl

/-- **Dimensions are computed exactly.** The exponents of products, quotients and powers are those
of integer arithmetic, and there is an overflow if and only if one of them is no signed byte. The
quotient of a product by one factor is the other one. For a degree other than zero, the root of a
power is its base, and a root is what has the dimension as its power, unless a lowest exponent is
divided by minus one. There are no roots of degree zero. -/
theorem exact_and_undone (a b : Dimension) (n : Int8) :
    Exact (a.mul? b) (a.exponents + b.exponents) ∧
    Exact (a.div? b) (a.exponents - b.exponents) ∧
    Exact (a.pow? n) (times n.toInt a.exponents) ∧
    (∀ c, a.mul? b = some c → c.div? b = some a) ∧
    (n ≠ 0 → ∀ c, a.pow? n = some c → c.root? n = some a) ∧
    (n ≠ 0 → (n = -1 → ∀ i, a.exponents i ≠ -128) →
      (a.root? n = some b ↔ b.pow? n = some a)) ∧
    a.root? 0 = none := by
  refine ⟨exact_ofInts? _, exact_ofInts? _, ?_, fun c => div?_of_mul?, fun hn c => root?_of_pow? hn,
    root?_iff_pow?, root?_zero a⟩
  rw [pow?_eq]
  exact exact_ofInts? _

/-- The lowest exponent is that of a power of degree -128, and the root leads back. Its own power of
degree -1 is an overflow. -/
theorem exact_and_undone_lowest :
    (base .length).pow? (-128) = some { length := -128 } ∧
    root? { length := -128 } (-128) = some (base .length) ∧
    (base .length).pow? (-1) = some { length := -1 } ∧
    root? { length := -1 } (-1) = some (base .length) ∧
    pow? { length := -128 } (-1) = none := by
  have hpower : (base .length).pow? (-128) = some { length := -128 } := by decide
  have hopposite : (base .length).pow? (-1) = some { length := -1 } := by decide
  obtain ⟨-, -, -, -, hroot, -⟩ := exact_and_undone (base .length) .one (-128)
  obtain ⟨-, -, -, -, -, hiff, -⟩ := exact_and_undone { length := -1 } (base .length) (-1)
  obtain ⟨-, -, hexact, -⟩ := exact_and_undone { length := -128 } .one (-1)
  refine ⟨hpower, hroot (by decide) _ hpower, hopposite, ?_, hexact.eq_none_iff.2 ⟨.length, ?_⟩⟩
  · exact (hiff (by decide) fun _ => by decide).2 hopposite
  · decide

end QuantityCalc.Dimension
