import QuantityCalc.Dimension.Basic
import Mathlib.Algebra.Group.Pi.Basic
import Mathlib.Algebra.Ring.Int.Defs
import Mathlib.Data.Fintype.Pi

/-!
# Exact exponents

`Exponents` are vectors of integers without bounds. A dimension is one whose components are signed
bytes (`ofInts?_eq_some_iff`, `ofInts?_eq_none_iff`). Products and quotients add and subtract the
vectors, powers multiply them, and roots divide them if nothing remains (`root?_eq_some_iff`).
-/

namespace QuantityCalc

instance : Fintype BaseDimension := Fintype.ofList BaseDimension.all BaseDimension.mem_all

/-- Exponents of the base dimensions, without bounds. -/
abbrev Exponents := BaseDimension → Int

/-- Whether all exponents are signed bytes. -/
def Exponents.Fits (v : Exponents) : Prop := ∀ b, -128 ≤ v b ∧ v b ≤ 127

instance (v : Exponents) : Decidable v.Fits :=
  inferInstanceAs (Decidable (∀ b, -128 ≤ v b ∧ v b ≤ 127))

namespace Exponents

/-- A multiple of exponents. -/
def times (n : Int) (v : Exponents) : Exponents := fun b => n * v b

@[simp] theorem zero_times (v : Exponents) : times 0 v = 0 := funext fun b => zero_mul (v b)

@[simp] theorem one_times (v : Exponents) : times 1 v = v := funext fun b => one_mul (v b)

@[simp] theorem times_zero (n : Int) : times n 0 = 0 := funext fun _ => mul_zero n

theorem neg_times_neg (n : Int) (v : Exponents) : times (-n) (-v) = times n v :=
  funext fun b => neg_mul_neg n (v b)

end Exponents

namespace Dimension

variable {d e : Dimension} {v : Exponents}

/-- The exponents of a dimension. -/
def exponents (d : Dimension) : Exponents := fun b => (d.exponent b).toInt

theorem exponents_injective : Function.Injective exponents := fun _ _ h =>
  ext_exponent fun b => Int8.toInt.inj (congrFun h b)

@[simp] theorem exponents_one : one.exponents = 0 := by
  funext b
  cases b <;> rfl

theorem mul?_eq (d e : Dimension) : d.mul? e = ofInts? (d.exponents + e.exponents) := rfl

theorem div?_eq (d e : Dimension) : d.div? e = ofInts? (d.exponents - e.exponents) := rfl

theorem pow?_eq (d : Dimension) (n : Int8) :
    d.pow? n = ofInts? (Exponents.times n.toInt d.exponents) := by
  rw [pow?]
  congr
  funext b
  exact mul_comm _ _

theorem toExponent?_eq_some_iff {z : Int} {n : Int8} : toExponent? z = some n ↔ n.toInt = z := by
  rw [toExponent?]
  constructor
  · intro h
    split at h
    · rename_i hz
      cases h
      exact Int8.toInt_ofInt_of_le hz.1 (by omega)
    · cases h
  · rintro rfl
    have hle := n.le_toInt
    have hlt := n.toInt_lt
    rw [if_pos ⟨by omega, by omega⟩, Int8.ofInt_toInt]

/-- **The dimension with given exponents**, if there is one. -/
theorem ofInts?_eq_some_iff : ofInts? v = some d ↔ d.exponents = v := by
  simp only [ofInts?, Option.bind_eq_bind, Option.bind_eq_some_iff, toExponent?_eq_some_iff,
    Option.pure_def, Option.some.injEq]
  constructor
  · rintro ⟨_, h₁, _, h₂, _, h₃, _, h₄, _, h₅, _, h₆, _, h₇, rfl⟩
    funext b
    cases b <;> assumption
  · rintro rfl
    exact ⟨_, rfl, _, rfl, _, rfl, _, rfl, _, rfl, _, rfl, _, rfl, rfl⟩

theorem fits_exponents (d : Dimension) : d.exponents.Fits := by
  intro b
  have hle := (d.exponent b).le_toInt
  have hlt := (d.exponent b).toInt_lt
  simp only [exponents]
  omega

/-- **There is no dimension** if an exponent leaves the range. -/
theorem ofInts?_eq_none_iff : ofInts? v = none ↔ ¬v.Fits := by
  constructor
  · intro h hfits
    have hd : (ofExponents fun b => Int8.ofInt (v b)).exponents = v := by
      funext b
      have hb := hfits b
      simp only [exponents, exponent_ofExponents]
      exact Int8.toInt_ofInt_of_le hb.1 (by omega)
    rw [ofInts?_eq_some_iff.2 hd] at h
    cases h
  · intro h
    cases hd : ofInts? v with
    | none => rfl
    | some d => exact absurd (ofInts?_eq_some_iff.1 hd ▸ fits_exponents d) h

/-! ## Roots -/

variable {n : Int8}

theorem toInt_ne_zero (hn : n ≠ 0) : n.toInt ≠ 0 := fun h => hn (Int8.toInt.inj h)

theorem root?_eq_none_iff (hn : n ≠ 0) : d.root? n = none ↔ ∃ b, ¬n.toInt ∣ d.exponents b := by
  simp [root?, hn, BaseDimension.mem_all, exponents]

/-- A divisor of a signed byte goes into it a signed number of times that fits a byte again, unless
it turns the sign of the lowest one. -/
theorem quotient_fits {x z : Int} (hx : -128 ≤ x ∧ x ≤ 127) (hn : n ≠ 0)
    (hlowest : n = -1 → x ≠ -128) (h : x = n.toInt * z) : -128 ≤ z ∧ z ≤ 127 := by
  have hle : z.natAbs ≤ x.natAbs := by
    rw [h, Int.natAbs_mul]
    exact Nat.le_mul_of_pos_left _ (Int.natAbs_pos.2 (toInt_ne_zero hn))
  refine ⟨by omega, ?_⟩
  by_contra hz
  -- then the divisor is one or minus one, and neither leads back to a signed byte
  have hz : z = 128 := by omega
  subst hz
  have hn' : n.toInt = -1 := by omega
  exact hlowest (Int8.toInt.inj hn') (by omega)

/-- **Roots divide exponents**: a dimension is a root if its power is the dimension in question. -/
theorem root?_eq_some_iff (hn : n ≠ 0) (hlowest : n = -1 → ∀ b, d.exponents b ≠ -128) :
    d.root? n = some e ↔ Exponents.times n.toInt e.exponents = d.exponents := by
  constructor
  · intro h
    rw [root?] at h
    split at h
    · rename_i hdvd
      cases h
      funext b
      obtain ⟨z, hz⟩ := hdvd.2 b (BaseDimension.mem_all b)
      obtain ⟨hle, hge⟩ := quotient_fits (fits_exponents d b) hn (fun h => hlowest h b) hz
      have hquotient : (d.exponent b).toInt / n.toInt = z := by
        rw [hz, Int.mul_ediv_cancel_left _ (toInt_ne_zero hn)]
      simp only [Exponents.times, exponents, exponent_ofExponents, hquotient]
      rw [Int8.toInt_ofInt_of_le hle (by omega), hz]
    · cases h
  · intro h
    have hb (b : BaseDimension) : (d.exponent b).toInt = n.toInt * (e.exponent b).toInt :=
      (congrFun h b).symm
    rw [root?, if_pos ⟨hn, fun b _ => ⟨_, hb b⟩⟩]
    refine congrArg some (ext_exponent fun b => ?_)
    rw [exponent_ofExponents, hb, Int.mul_ediv_cancel_left _ (toInt_ne_zero hn), Int8.ofInt_toInt]

end Dimension

end QuantityCalc
