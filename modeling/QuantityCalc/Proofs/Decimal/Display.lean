import QuantityCalc.Decimal.Display
import QuantityCalc.Proofs.Lexeme.Front

/-!
# The text of a finite float

The text of a finite float is a minus sign, if the float has one, and a number in positional
notation: digits, and perhaps a point and further digits behind it (`display_of_isFinite`). Such a
number is one lexeme, and it has a value (`IsPositional.lexeme`).
-/

namespace QuantityCalc

open Float.Model (UnpackedFloat)
open Text

namespace Decimal

/-! ## Finite floats -/

/-- A float whose exponent field has all bits set is not finite. -/
theorem isFinite_of_exponent {x : Float}
    (h : @UnpackedFloat.unpackExponent .binary64 x.toBits.toBitVec = -1#_) :
    x.isFinite = false := by
  have hunpack : x.toModel.unpack =
      if @UnpackedFloat.unpackMantissa .binary64 x.toBits.toBitVec = 0#_ then
        .infinity (.ofBitVec (@UnpackedFloat.unpackSign .binary64 x.toBits.toBitVec))
      else .notANumber := if_pos h
  change x.toModel.unpack.isFinite = false
  rw [hunpack]
  split <;> rfl

/-- **A finite float is a multiple of a power of two.** -/
theorem Binary.exists_of_isFinite {x : Float} (h : x.isFinite = true) :
    ∃ b, Binary.ofFloat? x = some b := by
  have hfield : x.toBits.toNat / leadingBit % 2048 ≠ 2047 := by
    intro hfield
    have hnat : (@UnpackedFloat.unpackExponent .binary64 x.toBits.toBitVec).toNat =
        x.toBits.toNat / leadingBit % 2048 := by
      simp [UnpackedFloat.unpackExponent, BitVec.extractLsb_toNat, Nat.shiftRight_eq_div_pow,
        leadingBit]
    have hexponent : @UnpackedFloat.unpackExponent .binary64 x.toBits.toBitVec = -1#_ := by
      refine BitVec.eq_of_toNat_eq ?_
      rw [hnat, hfield]
      rfl
    rw [isFinite_of_exponent hexponent] at h
    cases h
  unfold Binary.ofFloat?
  simp only [hfield, if_false]
  split <;> exact ⟨_, rfl⟩

/-! ## Positional notation -/

/-- The texts of numbers in positional notation: digits, and perhaps a point and further digits. -/
inductive IsPositional : Text → Prop
  | whole {t : Text} : t ≠ [] → (∀ c ∈ t, c.isDigit = true) → IsPositional t
  | fraction {t f : Text} : t ≠ [] → (∀ c ∈ t, c.isDigit = true) → f ≠ [] →
      (∀ c ∈ f, c.isDigit = true) → IsPositional (t ++ '.' :: f)

theorem isDigit_of_mem_toDigits {n : Nat} {c : Char} (h : c ∈ Nat.toDigits 10 n) :
    c.isDigit = true :=
  Nat.isDigit_of_mem_toDigits (by decide) (by decide) h

theorem isDigit_of_mem_zeros {n : Nat} {c : Char} (h : c ∈ List.replicate n '0') :
    c.isDigit = true := by
  rw [List.eq_of_mem_replicate h]
  rfl

theorem isDigit_append {t t' : Text} (h : ∀ c ∈ t, c.isDigit = true)
    (h' : ∀ c ∈ t', c.isDigit = true) : ∀ c ∈ t ++ t', c.isDigit = true :=
  List.forall_mem_append.2 ⟨h, h'⟩

/-- **A decimal is written in positional notation.** -/
theorem isPositional_positional (d : Decimal) : IsPositional d.positional := by
  have hne : Nat.toDigits 10 d.digits ≠ [] := Nat.toDigits_ne_nil
  have hdigits : ∀ c ∈ Nat.toDigits 10 d.digits, c.isDigit = true :=
    fun _ => isDigit_of_mem_toDigits
  unfold positional
  simp only
  split
  · exact .whole (by simp [hne]) (isDigit_append hdigits fun _ => isDigit_of_mem_zeros)
  · split
    · exact .fraction (t := ['0']) (by simp) (by simp) (by simp [hne])
        (isDigit_append (fun _ => isDigit_of_mem_zeros) hdigits)
    · -- the point stands between two digits
      have hplaces : 0 < (-d.exponent).toNat := by omega
      refine .fraction ?_ (fun c hc => hdigits c (List.mem_of_mem_take hc)) ?_
        (fun c hc => hdigits c (List.mem_of_mem_drop hc))
      · rw [← List.length_pos_iff, List.length_take]
        omega
      · rw [← List.length_pos_iff, List.length_drop]
        omega

/-- **The text of a finite float** is a number in positional notation, behind a minus sign if the
float has one. -/
theorem display_of_isFinite {x : Float} (h : x.isFinite = true) :
    ∃ t, IsPositional t ∧ ((display x).toList = t ∨ (display x).toList = '-' :: t) := by
  obtain ⟨b, hb⟩ := Binary.exists_of_isFinite h
  refine ⟨b.shortest.positional, isPositional_positional _, ?_⟩
  simp only [display, hb, String.toList_ofList]
  cases b.negative with
  | false => exact .inl rfl
  | true => exact .inr rfl

/-! ## Reading positional notation -/

variable {t : Text}

theorem IsPositional.eq_cons (h : IsPositional t) : ∃ c t', t = c :: t' ∧ c.isDigit = true := by
  cases h with
  | whole hne ht =>
    obtain ⟨c, t, rfl⟩ := List.exists_cons_of_ne_nil hne
    exact ⟨c, t, rfl, ht c List.mem_cons_self⟩
  | fraction hne ht =>
    obtain ⟨c, t, rfl⟩ := List.exists_cons_of_ne_nil hne
    exact ⟨c, _, rfl, ht c List.mem_cons_self⟩

theorem literal_of_fraction {t f : Text} (hne : t ≠ []) (ht : ∀ c ∈ t, c.isDigit = true)
    (hfne : f ≠ []) (hf : ∀ c ∈ f, c.isDigit = true) (decimalComma : Bool) :
    Literal.scan? decimalComma (t ++ '.' :: f) = some (⟨[], [], t, ['.'], f, none⟩, []) := by
  have hsign : Literal.splitSign (t ++ '.' :: f) = ([], t ++ '.' :: f) := by
    obtain ⟨c, t, rfl⟩ := List.exists_cons_of_ne_nil hne
    exact Literal.splitSign_of_isDigit (ht c List.mem_cons_self) _
  have hmark : Literal.splitHexMark (t ++ '.' :: f) = ([], t ++ '.' :: f) := by
    refine Lexeme.splitHexMark_of_notMem ?_ ?_ <;>
      simp [Lexeme.notMem_of_isDigit ht, Lexeme.notMem_of_isDigit hf]
  have htake : (t ++ '.' :: f).takeWhile (Literal.isDigitOf []) = t :=
    takeWhile_run ht (by simp [Literal.isDigitOf])
  have hdrop : (t ++ '.' :: f).dropWhile (Literal.isDigitOf []) = '.' :: f :=
    dropWhile_run ht (by simp [Literal.isDigitOf])
  have hfraction : Literal.splitFraction decimalComma [] ('.' :: f) = (['.'], f, []) := by
    obtain ⟨c, f, rfl⟩ := List.exists_cons_of_ne_nil hfne
    have hc : Literal.isDigitOf [] c = true := hf c List.mem_cons_self
    have hrest : ∀ d ∈ f, Literal.isDigitOf [] d = true :=
      fun d hd => hf d (List.mem_cons_of_mem c hd)
    simp [Literal.splitFraction, hc, List.takeWhile_eq_self_iff.2 hrest,
      List.dropWhile_eq_nil_iff.2 hrest]
  simp [Literal.scan?, hsign, hmark, htake, hdrop, hfraction, Literal.splitExponent, hne]

theorem value?_of_digits {t point f : Text} (hne : t ≠ []) :
    (⟨[], [], t, point, f, none⟩ : Literal).value? = some (ofParts t f 0).toFloat := by
  obtain ⟨c, t, rfl⟩ := List.exists_cons_of_ne_nil hne
  rfl

/-- **A number in positional notation is one lexeme**, and it has a value. -/
theorem IsPositional.lexeme (h : IsPositional t) (decimalComma : Bool) :
    ∃ l value, Lexeme.scan? decimalComma t = some (.number l, []) ∧ l.value? = some value := by
  obtain ⟨c, t', heq, hc⟩ := h.eq_cons
  have hlexeme {l : Literal} (hl : Literal.scan? decimalComma t = some (l, [])) :
      Lexeme.scan? decimalComma t = some (.number l, []) := by
    rw [heq] at hl ⊢
    exact Lexeme.scan?_of_literal hc hl
  cases h with
  | whole hne ht =>
    exact ⟨_, _, hlexeme (Lexeme.literal_of_digits hne ht decimalComma), value?_of_digits hne⟩
  | fraction hne ht hfne hf =>
    exact ⟨_, _, hlexeme (literal_of_fraction hne ht hfne hf decimalComma), value?_of_digits hne⟩

end Decimal

end QuantityCalc
