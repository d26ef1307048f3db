import QuantityCalc.Builtin
import QuantityCalc.Postfix
import QuantityCalc.Proofs.Except
import QuantityCalc.Proofs.Quantity.Order

/-!
# Infinite values

The distance of an infinite value from any other is infinite, and so is the tolerance, which grows
with the larger of the two. So an infinite value counts as equal to every value
(`Quantity.compareValues_of_isInf`), and only finite values are put in order, if they are further
apart than the tolerance (`Quantity.orders_only_finite`). The operators that compare and the
functions that choose the least or the greatest quantity inherit it: an infinite first argument is
chosen, and infinite later ones are passed over.
-/

namespace QuantityCalc

open Float.Model (UnpackedFloat)

variable {a b : Float}

namespace FloatOrder

open Float.Model.UnpackedFloat

/-! ## Absolute values -/

/-- Infinity, packed and unpacked again, is itself. -/
theorem unpack_pack_infinity (s : UnpackedFloat.Sign) :
    (Float.Model.pack (.infinity s)).unpack = .infinity s := by
  cases s <;> rfl

/-- The bits of an absolute value are those of the value without the sign. -/
theorem unpack_positive (spec : Float.Model.Format) (v : BitVec spec.numBits) :
    unpack spec (packComponents spec .positive (unpackExponent v) (unpackMantissa v)) =
      (unpack spec v).abs := by
  unfold unpack
  simp only [unpackMantissa_packComponents, unpackExponent_packComponents,
    unpackSign_packComponents, Sign.ofBitVec_toBitVec]
  split
  · split <;> rfl
  · split
    · split <;> rfl
    · rfl

/-- The absolute value of a float is that of what its bits stand for. -/
theorem unpack_abs (a : Float) : a.abs.toModel.unpack = a.toModel.unpack.abs := by
  have hunpack : _ = a.toModel.unpack.abs :=
    unpack_positive .binary64 a.toModel.toBits.toBitVec
  have hvalid : Float.Model.Format.binary64.Valid (packComponents .binary64 .positive
      (unpackExponent a.toModel.toBits.toBitVec) (unpackMantissa a.toModel.toBits.toBitVec)) := by
    refine ⟨fun hexponent hmantissa => ?_⟩
    rw [unpackExponent_packComponents] at hexponent
    rw [unpackMantissa_packComponents] at hmantissa
    rw [a.toModel.valid.eq_packedNaN hexponent hmantissa]
    rfl
  change unpack .binary64 (pack .binary64 a.toModel.unpack.abs) = _
  rw [← hunpack, pack_unpack_of_valid hvalid]

/-! ## Infinite floats -/

theorem isNaN_eq_false_iff : a.isNaN = false ↔ a.toModel.unpack ≠ .notANumber := by
  rw [← Bool.not_eq_true, FloatOrder.isNaN_iff]

/-- A float is infinite if its bits stand for infinity, with either sign. -/
theorem isInf_iff : a.isInf = true ↔ ∃ s, a.toModel.unpack = .infinity s := by
  change a.toModel.unpack.isInf = true ↔ _
  cases a.toModel.unpack <;> simp [UnpackedFloat.isInf]

/-- A float is a number, infinite or finite. -/
theorem isFinite_of_not (hnan : a.isNaN = false) (hinf : a.isInf = false) : a.isFinite = true := by
  change a.toModel.unpack.isNaN = false at hnan
  change a.toModel.unpack.isInf = false at hinf
  change a.toModel.unpack.isFinite = true
  cases hu : a.toModel.unpack with
  | infinity s =>
    rw [hu] at hinf
    cases hinf
  | notANumber =>
    rw [hu] at hnan
    cases hnan
  | zero s => rfl
  | finite s m e hm => rfl

theorem isFinite_of_isInf (h : a.isInf = true) : a.isFinite = false := by
  obtain ⟨s, hs⟩ := isInf_iff.1 h
  change a.toModel.unpack.isFinite = false
  rw [hs]
  rfl

theorem isFinite_abs (h : a.isFinite = true) : a.abs.isFinite = true := by
  change a.toModel.unpack.isFinite = true at h
  change a.abs.toModel.unpack.isFinite = true
  rw [unpack_abs]
  cases hu : a.toModel.unpack with
  | infinity s | notANumber =>
    rw [hu] at h
    cases h
  | zero s | finite s m e hm => rfl

/-- A float is the infinity above all numbers. -/
def IsPosInf (a : Float) : Prop := a.toModel.unpack = .infinity .positive

namespace IsPosInf

/-- The absolute value of an infinite float is above all numbers. -/
theorem abs (h : a.isInf = true) : IsPosInf a.abs := by
  obtain ⟨s, hs⟩ := isInf_iff.1 h
  rw [IsPosInf, unpack_abs, hs]
  rfl

/-- All finite floats are below infinity. -/
theorem lt (hb : IsPosInf b) (ha : a.isFinite = true) : a < b := by
  change a.toModel.unpack.isFinite = true at ha
  rw [lt_iff, hb]
  cases hu : a.toModel.unpack with
  | infinity s | notANumber =>
    rw [hu] at ha
    cases ha
  | zero s | finite s m e hm => simp [UnpackedFloat.compare]

/-- Nothing is above infinity. -/
theorem not_lt (ha : IsPosInf a) : ¬a < b := by
  rw [lt_iff, ha]
  rcases b.toModel.unpack with ⟨_ | _⟩ | _ | _ | ⟨_ | _, _, _, _⟩ <;>
    simp [UnpackedFloat.compare]

/-- Infinity is at most infinity. -/
theorem le (ha : IsPosInf a) (hb : IsPosInf b) : a ≤ b := by
  change decide (a.toModel.unpack.le b.toModel.unpack = true) = true
  rw [ha, hb]
  rfl

/-- The tolerance grows with the values, also beyond all numbers. -/
theorem tolerance_mul (h : IsPosInf a) : IsPosInf (Quantity.tolerance * a) := by
  obtain ⟨m, e, hm, htolerance⟩ : ∃ m e hm, Quantity.tolerance.toModel.unpack =
      UnpackedFloat.finite .positive m e hm := ⟨_, _, _, rfl⟩
  change (Float.Model.pack (.mul .binary64 Quantity.tolerance.toModel.unpack
    a.toModel.unpack)).unpack = .infinity .positive
  rw [htolerance, h, UnpackedFloat.mul]
  exact unpack_pack_infinity _

end IsPosInf

/-- The difference of an infinite value and another one is infinite. -/
theorem isInf_sub (ha : a.isNaN = false) (hb : b.isNaN = false)
    (hinf : a.isInf = true ∨ b.isInf = true) (hne : ¬(a == b) = true) : (a - b).isInf = true := by
  rw [isNaN_eq_false_iff] at ha hb
  rw [isInf_iff, isInf_iff] at hinf
  rw [beq_iff] at hne
  obtain ⟨s, hs⟩ : ∃ s, UnpackedFloat.sub .binary64 a.toModel.unpack b.toModel.unpack =
      .infinity s := by
    rcases hinf with ⟨s, hs⟩ | ⟨s, hs⟩
    · rw [hs] at hne ⊢
      cases hu : b.toModel.unpack with
      | notANumber => exact absurd hu hb
      | infinity s' =>
        rw [hu] at hne
        cases s <;> cases s' <;> first | exact ⟨_, rfl⟩ | exact absurd rfl hne
      | zero s' | finite s' m e hm => exact ⟨_, rfl⟩
    · rw [hs] at hne ⊢
      cases hu : a.toModel.unpack with
      | notANumber => exact absurd hu ha
      | infinity s' =>
        rw [hu] at hne
        cases s <;> cases s' <;> first | exact ⟨_, rfl⟩ | exact absurd rfl hne
      | zero s' | finite s' m e hm => exact ⟨_, rfl⟩
  refine isInf_iff.2 ⟨s, ?_⟩
  change (Float.Model.pack (.sub .binary64 a.toModel.unpack b.toModel.unpack)).unpack = _
  rw [hs]
  exact unpack_pack_infinity s

end FloatOrder

namespace Quantity

open FloatOrder

/-! ## Comparing values -/

/-- An infinite value is within the tolerance of every other one. -/
theorem nearlyEqual_of_isInf (ha : a.isNaN = false) (hb : b.isNaN = false)
    (hinf : a.isInf = true ∨ b.isInf = true) (hne : ¬(a == b) = true) :
    nearlyEqual a b = true := by
  have hdistance : IsPosInf (a - b).abs := .abs (isInf_sub ha hb hinf hne)
  have hlarger : IsPosInf (if a.abs < b.abs then b.abs else a.abs) := by
    cases hainf : a.isInf with
    | true =>
      have htop : IsPosInf a.abs := .abs hainf
      rwa [if_neg htop.not_lt]
    | false =>
      have htop : IsPosInf b.abs := .abs (hinf.resolve_left (by simp [hainf]))
      rwa [if_pos (htop.lt (isFinite_abs (isFinite_of_not ha hainf)))]
  exact decide_eq_true (hdistance.le hlarger.tolerance_mul)

theorem compareValues_of_nearlyEqual (h : nearlyEqual a b = true) :
    compareValues a b = .ok .eq := by
  rw [compareValues, if_pos h]

/-- Values that are not nearly equal are put in the order of floats. -/
theorem compareValues_of_compare {o : Ordering} (hnear : nearlyEqual a b = false)
    (ho : a.toModel.unpack.compare b.toModel.unpack = some o) : compareValues a b = .ok o := by
  cases o <;> simp [compareValues, hnear, lt_iff (a := a), beq_iff, gt_iff, ho]

/-- **An infinite value counts as equal to every value.** -/
theorem compareValues_of_isInf (ha : a.isNaN = false) (hb : b.isNaN = false)
    (hinf : a.isInf = true ∨ b.isInf = true) : compareValues a b = .ok .eq := by
  cases hnear : nearlyEqual a b with
  | true => exact compareValues_of_nearlyEqual hnear
  | false =>
    by_cases hbeq : (a == b) = true
    · exact compareValues_of_compare hnear (beq_iff.1 hbeq)
    · rw [nearlyEqual_of_isInf ha hb hinf hbeq] at hnear
      cases hnear

/-- Two values are finite and further apart than the tolerance. -/
structure Resolved (a b : Float) : Prop where
  left : a.isFinite = true
  right : b.isFinite = true
  far : nearlyEqual a b = false

/-- **Only resolved values are put in order**, and they are put in the order of floats. -/
theorem exists_compareValues (ha : a.isNaN = false) (hb : b.isNaN = false) :
    ∃ o, compareValues a b = .ok o ∧ (o = .lt ↔ Resolved a b ∧ a < b) ∧
      (o = .gt ↔ Resolved a b ∧ b < a) := by
  by_cases hinf : a.isInf = true ∨ b.isInf = true
  · have hresolved : ¬Resolved a b := by
      rintro ⟨hleft, hright, -⟩
      rcases hinf with hinf | hinf
      · rw [isFinite_of_isInf hinf] at hleft
        cases hleft
      · rw [isFinite_of_isInf hinf] at hright
        cases hright
    exact ⟨.eq, compareValues_of_isInf ha hb hinf, by simp [hresolved], by simp [hresolved]⟩
  · simp only [not_or, Bool.not_eq_true] at hinf
    cases hnear : nearlyEqual a b with
    | true =>
      have hresolved : ¬Resolved a b := fun h => by
        rw [h.far] at hnear
        cases hnear
      exact ⟨.eq, compareValues_of_nearlyEqual hnear, by simp [hresolved], by simp [hresolved]⟩
    | false =>
      have hresolved : Resolved a b :=
        ⟨isFinite_of_not ha hinf.1, isFinite_of_not hb hinf.2, hnear⟩
      have hsome : a.toModel.unpack.compare b.toModel.unpack ≠ none := by
        rw [ne_eq, compare_eq_none_iff, not_or]
        exact ⟨isNaN_eq_false_iff.1 ha, isNaN_eq_false_iff.1 hb⟩
      obtain ⟨o, ho⟩ := Option.ne_none_iff_exists'.1 hsome
      refine ⟨o, compareValues_of_compare hnear ho, ?_, ?_⟩
      · simp [hresolved, lt_iff, ho]
      · simp [hresolved, gt_iff, ho]

/-! ## Comparing quantities -/

variable {d : Dimension} {p q : Quantity} {qs : List Quantity}

/-- A quantity has a given dimension, and its value is a number or infinite. -/
structure HasValue (d : Dimension) (q : Quantity) : Prop where
  dimension : q.dimension = d
  isNaN : q.coherentValue.isNaN = false

/-- The value of a quantity is infinite. -/
def IsInfinite (q : Quantity) : Prop := q.coherentValue.isInf = true

/-- Quantities of one dimension are compared by their values. -/
theorem HasValue.compare_eq (hp : p.HasValue d) (hq : q.HasValue d) :
    p.compare q = compareValues p.coherentValue q.coherentValue :=
  if_pos (hp.dimension.trans hq.dimension.symm)

/-- An infinite quantity counts as equal to all of its dimension. -/
theorem HasValue.compare_of_isInfinite (hp : p.HasValue d) (hq : q.HasValue d)
    (hinf : p.IsInfinite ∨ q.IsInfinite) : p.compare q = .ok .eq := by
  rw [hp.compare_eq hq]
  exact compareValues_of_isInf hp.isNaN hq.isNaN hinf

/-- The operators that hold of equal values. -/
def admitsEqual : Operator → Bool
  | .equals | .lessOrEqual | .greaterOrEqual => true
  | _ => false

/-- What the operators that compare say of equal quantities. -/
theorem binary_of_compare_eq (h : p.compare q = .ok .eq) {op : Operator}
    (hop : op.isComparison = true) : op.binary p q = .ok (.ofBool (admitsEqual op)) := by
  cases op with
  | equals | differs | lessThan | lessOrEqual | greaterThan | greaterOrEqual =>
    simp only [Operator.binary, Operator.comparison, h]
    rfl
  | parenOpen | parenClose | not | add | sub | mul | div | pow | root | plus | minus => cases hop

/-! ## The least and the greatest quantity -/

/-- What counts as equal to the first quantity does not take its place. -/
theorem extreme_cons_of_eq {beats : Ordering} (hbeats : beats ≠ .eq)
    (h : q.compare p = .ok .eq) :
    Builtin.extreme beats p (q :: qs) = Builtin.extreme beats p qs := by
  simp only [Builtin.extreme, h, Except.mapError_ok]
  exact if_neg hbeats.symm

/-- An infinite first quantity is chosen. -/
theorem extreme_of_isInfinite {beats : Ordering} (hbeats : beats ≠ .eq) (hp : p.HasValue d)
    (hinf : p.IsInfinite) (hqs : ∀ q ∈ qs, q.HasValue d) :
    Builtin.extreme beats p qs = .ok p := by
  induction qs with
  | nil => rfl
  | cons q qs ih =>
    obtain ⟨hq, hqs⟩ := List.forall_mem_cons.1 hqs
    rw [extreme_cons_of_eq hbeats (hq.compare_of_isInfinite hp (.inr hinf)), ih hqs]

/-- Infinite quantities behind the first one are passed over. -/
theorem extreme_filter {beats : Ordering} (hbeats : beats ≠ .eq) (hp : p.HasValue d)
    (hqs : ∀ q ∈ qs, q.HasValue d) :
    Builtin.extreme beats p (qs.filter (·.coherentValue.isFinite)) =
      Builtin.extreme beats p qs := by
  induction qs generalizing p with
  | nil => rfl
  | cons q qs ih =>
    obtain ⟨hq, hqs⟩ := List.forall_mem_cons.1 hqs
    cases hinf : q.coherentValue.isInf with
    | true =>
      rw [extreme_cons_of_eq hbeats (hq.compare_of_isInfinite hp (.inl hinf)), ← ih hp hqs,
        List.filter_cons_of_neg (by simp [isFinite_of_isInf hinf])]
    | false =>
      have hfinite : q.coherentValue.isFinite = true := isFinite_of_not hq.isNaN hinf
      rw [List.filter_cons, if_pos hfinite]
      -- the quantity that is kept has a value again
      obtain ⟨o, ho, -⟩ := exists_compareValues hq.isNaN hp.isNaN
      simp only [Builtin.extreme, hq.compare_eq hp, ho, Except.mapError_ok]
      change (if o = beats then _ else _) = (if o = beats then _ else _)
      rw [ih hq hqs, ih hp hqs]

/-- **Only finite values are put in order.** Two quantities of one dimension are ordered as their
values are, if both are finite and further apart than the tolerance. An infinite value counts as
equal to every value, and so say all operators that compare. The least and the greatest of some
quantities are the first one, if that is infinite, and otherwise they are chosen among the finite
ones. -/
theorem orders_only_finite (hp : p.HasValue d) :
    (∀ q : Quantity, q.HasValue d →
      (∃ o, p.compare q = .ok o ∧
        (o = .lt ↔ Resolved p.coherentValue q.coherentValue ∧ p.coherentValue < q.coherentValue) ∧
        (o = .gt ↔ Resolved p.coherentValue q.coherentValue ∧ q.coherentValue < p.coherentValue)) ∧
      (p.IsInfinite ∨ q.IsInfinite → p.compare q = .ok .eq ∧ ∀ op : Operator,
        op.isComparison = true → op.binary p q = .ok (.ofBool (admitsEqual op)))) ∧
    ∀ f : Builtin, f = .min ∨ f = .max → ∀ qs, (∀ q ∈ qs, q.HasValue d) →
      (p.IsInfinite → f.call (p :: qs) = .ok p) ∧
      f.call (p :: qs) = f.call (p :: qs.filter (·.coherentValue.isFinite)) := by
  refine ⟨fun q hq => ⟨?_, fun hinf => ?_⟩, ?_⟩
  · rw [hp.compare_eq hq]
    exact exists_compareValues hp.isNaN hq.isNaN
  · have heq := hp.compare_of_isInfinite hq hinf
    exact ⟨heq, fun op hop => binary_of_compare_eq heq hop⟩
  · rintro f (rfl | rfl) qs hqs
    · exact ⟨fun hinf => extreme_of_isInfinite (by decide) hp hinf hqs,
        (extreme_filter (by decide) hp hqs).symm⟩
    · exact ⟨fun hinf => extreme_of_isInfinite (by decide) hp hinf hqs,
        (extreme_filter (by decide) hp hqs).symm⟩

/-- Infinitely many. -/
def infinite : Quantity := plain (1 / 0)

theorem isInfinite_infinite : infinite.IsInfinite := by
  rw [IsInfinite]
  decide +kernel

theorem hasValue_infinite : infinite.HasValue .one := ⟨rfl, by decide +kernel⟩

theorem hasValue_five : (plain 5).HasValue .one := ⟨rfl, by decide +kernel⟩

theorem orders_only_finite_sample :
    infinite.HasValue .one ∧ (plain 5).HasValue .one ∧
    infinite.compare (plain 5) = .ok .eq ∧
    Operator.greaterThan.binary infinite (plain 5) = .ok (.ofBool false) ∧
    Builtin.min.call [infinite, plain 5, plain 5] = .ok infinite ∧
    Builtin.max.call [plain 5, infinite, plain 5] = Builtin.max.call [plain 5, plain 5] := by
  have hinfinite := hasValue_infinite
  have hfive := hasValue_five
  obtain ⟨horder, hchoice⟩ := orders_only_finite hinfinite
  obtain ⟨heq, hops⟩ := (horder _ hfive).2 (.inl isInfinite_infinite)
  have hfinite : [infinite, plain 5].filter (·.coherentValue.isFinite) = [plain 5] := by
    decide +kernel
  refine ⟨hinfinite, hfive, heq, hops .greaterThan rfl, ?_, ?_⟩
  · exact (hchoice .min (.inl rfl) [plain 5, plain 5] (by simp [hfive])).1 isInfinite_infinite
  · rw [((orders_only_finite hfive).2 .max (.inr rfl) [infinite, plain 5]
      (by simp [hinfinite, hfive])).2, hfinite]

/-- A value below an infinite one is not told apart from it, on neither side, and the greater of the
two is chosen as the least. -/
theorem not_ordered_infinite :
    (plain 5).coherentValue < infinite.coherentValue ∧
    (plain 5).compare infinite = .ok .eq ∧ infinite.compare (plain 5) = .ok .eq ∧
    Builtin.min.call [infinite, plain 5] = .ok infinite :=
  ⟨by decide +kernel,
    hasValue_five.compare_of_isInfinite hasValue_infinite (.inr isInfinite_infinite),
    hasValue_infinite.compare_of_isInfinite hasValue_five (.inl isInfinite_infinite),
    extreme_of_isInfinite (by decide) hasValue_infinite isInfinite_infinite
      (by simp [hasValue_five])⟩

end Quantity

end QuantityCalc
