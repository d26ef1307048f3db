import QuantityCalc.Proofs.Text.Break
import QuantityCalc.Unit.Resolution
import Mathlib.Data.List.TakeWhile

/-!
# Units by their first characters

The unit behind a number starts with a character of a symbol, which is no white space. A symbol that
denotes a unit is read as this unit (`UnitSystem.scan?_symbol`).
-/

namespace QuantityCalc

open Text

theorem UnitExpr.isBlank_of_isSymbolChar {c : Char} (h : isSymbolChar c = true) :
    isBlank c = false := by
  rw [Bool.eq_false_iff]
  intro hblank
  simp only [isSymbolChar, isLetter_of_isBlank hblank, Bool.false_or, decide_eq_true_eq] at h
  subst h
  exact absurd hblank (by decide)

theorem UnitExpr.isDigit_of_isSymbolChar {c : Char} (h : isSymbolChar c = true) :
    c.isDigit = false := by
  have hdigits : ∀ n < 58, 48 ≤ n → isSymbolChar (Char.ofNat n) = false := by decide +kernel
  rw [Bool.eq_false_iff]
  intro hdigit
  simp only [Char.isDigit, Bool.and_eq_true, decide_eq_true_eq] at hdigit
  have hfalse := hdigits c.toNat (Nat.lt_succ_of_le hdigit.2) hdigit.1
  rw [Char.ofNat_toNat, h] at hfalse
  cases hfalse

theorem UnitExpr.isSymbolChar_of_isDigit {c : Char} (h : c.isDigit = true) :
    isSymbolChar c = false := by
  rw [Bool.eq_false_iff]
  intro hsymbol
  rw [isDigit_of_isSymbolChar hsymbol] at h
  cases h

theorem UnitExpr.scan?_symbol {known : String → Bool} {name : Text} (hne : name ≠ [])
    (hname : ∀ c ∈ name, isSymbolChar c = true) (h : known (String.ofList name) = true) :
    scan? known name = some (⟨[(.symbol (String.ofList name), 1)], []⟩, []) := by
  match name with
  | c :: t =>
    have hc := hname c List.mem_cons_self
    have ht : ∀ d ∈ t, isSymbolChar d = true := fun d hd => hname d (List.mem_cons_of_mem c hd)
    have hprimary (group : Cursor → Except UnitError (UnitExpr × Cursor)) :
        primary (.longest known) group (.start (c :: t)) =
          .ok (.symbol (String.ofList (c :: t)), (Cursor.start (c :: t)).moveTo []) := by
      have hopen : c ≠ '(' := by
        rintro rfl
        exact absurd hc (by decide)
      simp only [primary, Cursor.rest_start, Extent.mayStop, Extent.admits, hc, h,
        List.takeWhile_eq_self_iff.2 ht, List.dropWhile_eq_nil_iff.2 ht]
      simp
    simp only [scan?, read, expression, factor, hprimary, bind, Except.bind]
    simp [exponent, factors, pure, Except.pure, hc]

namespace UnitSystem

variable {s : UnitSystem} {t : Text}

theorem scan?_eq_none (h : ∀ c ∈ t.head?, UnitExpr.isSymbolChar c = false) : s.scan? t = none := by
  have hhead : t.head?.any UnitExpr.isSymbolChar = false := by
    cases hc : t.head? with
    | none => rfl
    | some c => exact h c hc
  simp [scan?, UnitExpr.scan?, hhead]

theorem trimStart_of_scan? {result : Except UnitError (MeasureUnit × Text)}
    (h : s.scan? t = some result) (r : Text) : trimStart (t ++ r) = t ++ r := by
  match t with
  | [] => simp [scan?, UnitExpr.scan?] at h
  | c :: t =>
    by_cases hc : UnitExpr.isSymbolChar c = true
    · exact List.dropWhile_cons_of_neg (by simp [UnitExpr.isBlank_of_isSymbolChar hc])
    · rw [scan?_eq_none (by simpa using hc)] at h
      cases h

theorem scan?_symbol {name : Text} {u : MeasureUnit} (hne : name ≠ [])
    (hname : ∀ c ∈ name, UnitExpr.isSymbolChar c = true)
    (h : s.lookup? (String.ofList name) = some u) : s.scan? name = some (.ok (u, [])) := by
  have hknown : s.contains (String.ofList name) = true := by
    rw [contains, h]
    rfl
  have hsingle : (⟨[(.symbol (String.ofList name), 1)], []⟩ : UnitExpr).single? =
      some (String.ofList name) := rfl
  simp only [scan?, UnitExpr.scan?_symbol hne hname hknown, resolve, hsingle, h, Option.map_some]
  rfl

end UnitSystem

end QuantityCalc
