import QuantityCalc.Quantity.Basic
import Mathlib

/-!
# Values that are not comparable

A comparison of two values fails if and only if one of them is not a number
(`Quantity.compareValues_eq_error_iff`).
-/

namespace QuantityCalc

open Float.Model (UnpackedFloat)

variable {a b : Float}

namespace FloatOrder

theorem isNaN_iff : a.isNaN = true ↔ a.toModel.unpack = .notANumber := UnpackedFloat.isNaN_iff

theorem isNaN_pack : (Float.Model.pack .notANumber).isNaN = true := by decide

theorem isNaN_sub (h : a.isNaN = true ∨ b.isNaN = true) : (a - b).isNaN = true := by
  have hsub : UnpackedFloat.sub .binary64 a.toModel.unpack b.toModel.unpack = .notANumber := by
    rcases h with h | h
    · rw [isNaN_iff.1 h, UnpackedFloat.sub]
    · rw [isNaN_iff.1 h]
      cases a.toModel.unpack <;> rfl
  change (Float.Model.pack (.sub .binary64 a.toModel.unpack b.toModel.unpack)).isNaN = true
  rw [hsub]
  exact isNaN_pack

theorem isNaN_abs (h : a.isNaN = true) : a.abs.isNaN = true := by
  change (Float.Model.pack a.toModel.unpack.abs).isNaN = true
  rw [isNaN_iff.1 h]
  exact isNaN_pack

theorem not_le_of_isNaN (h : a.isNaN = true) : ¬a ≤ b := by
  change ¬decide (a.toModel.unpack.le b.toModel.unpack = true) = true
  simp [isNaN_iff.1 h, UnpackedFloat.le, UnpackedFloat.compare]

theorem lt_iff : a < b ↔ a.toModel.unpack.compare b.toModel.unpack = some .lt := by
  change decide (a.toModel.unpack.lt b.toModel.unpack = true) = true ↔ _
  simp [UnpackedFloat.lt]

theorem beq_iff : (a == b) = true ↔ a.toModel.unpack.compare b.toModel.unpack = some .eq := by
  change a.toModel.unpack.beq b.toModel.unpack = true ↔ _
  simp [UnpackedFloat.beq]

/-- Two values are not ordered if and only if one of them is not a number. -/
theorem compare_eq_none_iff {x y : UnpackedFloat} :
    x.compare y = none ↔ x = .notANumber ∨ y = .notANumber := by
  rcases x with ⟨_ | _⟩ | _ | _ | ⟨_ | _, _, _, _⟩ <;>
    rcases y with ⟨_ | _⟩ | _ | _ | ⟨_ | _, _, _, _⟩ <;> simp [UnpackedFloat.compare]

theorem compare_eq_swap (x y : UnpackedFloat) : y.compare x = (x.compare y).map .swap := by
  have hsign (s s' : UnpackedFloat.Sign) : (compare s s').swap = compare s' s := by
    cases s <;> cases s' <;> rfl
  have hexponent (e e' : Int) : (compare e e').swap = compare e' e := Std.OrientedCmp.eq_swap.symm
  have hmantissa (m m' : Nat) : (compare m m').swap = compare m' m := Std.OrientedCmp.eq_swap.symm
  rcases x with ⟨_ | _⟩ | _ | _ | ⟨_ | _, _, _, _⟩ <;>
    rcases y with ⟨_ | _⟩ | _ | _ | ⟨_ | _, _, _, _⟩ <;>
    simp [UnpackedFloat.compare, Ordering.swap_then, hsign, hexponent, hmantissa]

theorem gt_iff : b < a ↔ a.toModel.unpack.compare b.toModel.unpack = some .gt := by
  rw [lt_iff, compare_eq_swap]
  cases a.toModel.unpack.compare b.toModel.unpack with
  | none => simp
  | some o => cases o <;> simp

end FloatOrder

namespace Quantity

open FloatOrder

/-- **A comparison fails** if and only if one of the values is not a number. -/
theorem compareValues_eq_error_iff {e : UnitError} :
    compareValues a b = .error e ↔
      e = .domain .notComparable ∧ (a.isNaN = true ∨ b.isNaN = true) := by
  have hnone := @compare_eq_none_iff a.toModel.unpack b.toModel.unpack
  rw [isNaN_iff, isNaN_iff, ← hnone]
  constructor
  · intro h
    simp only [compareValues, lt_iff (a := a), beq_iff, gt_iff] at h
    split at h
    · cases h
    · cases hcompare : a.toModel.unpack.compare b.toModel.unpack with
      | none => simpa [hcompare, eq_comm] using h
      | some o => cases o <;> simp [hcompare] at h
  · rintro ⟨rfl, h⟩
    have hnear : nearlyEqual a b = false := by
      have hdiff : (a - b).abs.isNaN = true := by
        refine isNaN_abs (isNaN_sub ?_)
        rwa [isNaN_iff, isNaN_iff, ← hnone]
      simp [nearlyEqual, not_le_of_isNaN hdiff]
    simp [compareValues, hnear, lt_iff (a := a), beq_iff, gt_iff, h]

end Quantity

end QuantityCalc
