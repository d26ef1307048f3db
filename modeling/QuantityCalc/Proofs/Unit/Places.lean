import QuantityCalc.Postfix
import QuantityCalc.Proofs.Except
import QuantityCalc.Proofs.Text.Place
import QuantityCalc.Proofs.Unit.Rest
import QuantityCalc.Quantity.Basic

/-!
# Where a unit expression is malformed

The reader of unit expressions reports places in the text that it reads: the text of a target unit
without the white space around it (`UnitSystem.locatedIn_of_parse`). Nothing else reports that a
unit expression is malformed: the arithmetic of quantities does not (`UnitError.IsCount`).
-/

namespace QuantityCalc

variable {α : Type} {t : Text}

namespace UnitError

/-- If an error tells a position, it is a place in the text. -/
def LocatedIn (t : Text) : UnitError → Prop
  | malformed position _ => ∃ rest, t.At position rest
  | _ => True

/-- The position that an error tells. -/
def position? : UnitError → Option Nat
  | malformed position _ => some position
  | _ => none

/-- Only a malformed unit has a position. -/
theorem eq_malformed_of_position? {e : UnitError} {position : Nat}
    (h : e.position? = some position) : ∃ fault, e = malformed position fault := by
  cases e with
  | malformed p fault => exact ⟨fault, by rw [Option.some.inj h]⟩
  | _ => cases h

end UnitError

namespace UnitExpr

/-- What a reader leads to: a place in a text, or an error that is located in it. -/
def KeepsIn (t : Text) : Except UnitError (α × Cursor) → Prop
  | .ok (_, d) => d.In t
  | .error e => e.LocatedIn t

/-- The second of two readers starts from a place in the text. -/
theorem KeepsIn.bind {β : Type} {r : Except UnitError (α × Cursor)}
    {f : α × Cursor → Except UnitError (β × Cursor)} (h : KeepsIn t r)
    (hf : ∀ a d, d.In t → KeepsIn t (f (a, d))) : KeepsIn t (r >>= f) := by
  match r with
  | .ok (a, d) => exact hf a d h
  | .error e => exact h

/-- A fault is located where the reader stands. -/
theorem keepsIn_fault {c : Cursor} (h : c.In t) (fault : UnitFault) :
    KeepsIn t (.error (faultAt c fault) : Except UnitError (α × Cursor)) :=
  ⟨c.rest, h⟩

variable {extent : Extent} {group : Cursor → Except UnitError (UnitExpr × Cursor)} {c : Cursor}

/-- A term ends in the text, if a group does. -/
theorem keepsIn_primary (hg : ∀ d : Cursor, d.In t → KeepsIn t (group d)) (h : c.In t) :
    KeepsIn t (primary extent group c) := by
  unfold primary
  split
  next rest hrest =>
    refine (hg _ (h.moveTo (hrest ▸ List.suffix_cons _ _))).bind fun e d hd => ?_
    simp only
    split
    next rest' hclose => exact hd.moveTo (hclose ▸ List.suffix_cons _ _)
    next => exact keepsIn_fault hd _
  next first rest _ hrest =>
    have hdrop (p : Char → Bool) : (c.moveTo (rest.dropWhile p)).In t :=
      h.moveTo (hrest ▸ (List.dropWhile_suffix p).trans (List.suffix_cons _ _))
    split
    · simp only
      split
      · exact keepsIn_fault (hdrop _) _
      · split
        · exact keepsIn_fault (hdrop _) _
        · exact hdrop _
    · split
      · simp only
        split
        · exact hdrop _
        · trivial
      · exact keepsIn_fault h _
  next => exact keepsIn_fault h _

/-- An exponent ends in the text, and it is malformed at a place there. -/
theorem keepsIn_exponent (h : c.In t) : KeepsIn t (exponent extent c) := by
  unfold exponent
  split
  next rest hrest =>
    have hsign : (splitMinus rest).2 <:+ c.rest :=
      (suffix_splitMinus rest).trans (hrest ▸ List.suffix_cons _ _)
    have hdigits := h.moveTo ((List.dropWhile_suffix Char.isDigit).trans hsign)
    simp only
    split
    · split
      · exact h
      · exact keepsIn_fault (h.moveTo hsign) _
    · split
      · exact keepsIn_fault hdigits _
      · split
        · exact keepsIn_fault hdigits _
        · exact hdigits
  next => exact h

/-- A factor ends in the text, as its term and its exponent do. -/
theorem keepsIn_factor (hg : ∀ d : Cursor, d.In t → KeepsIn t (group d)) (h : c.In t) :
    KeepsIn t (factor extent group c) :=
  (keepsIn_primary hg h).bind fun _ _ hd => (keepsIn_exponent hd).bind fun _ _ he => he

/-- The reader goes on from sign to sign, and each of them is in the text. -/
theorem keepsIn_factors (hg : ∀ d : Cursor, d.In t → KeepsIn t (group d)) (rounds : Nat)
    (e : UnitExpr) (h : c.In t) : KeepsIn t (factors extent group rounds c e) := by
  induction rounds generalizing c e with
  | zero => exact h
  | succ rounds ih =>
    rw [factors]
    split
    · exact h
    next below rest hsign =>
      have hfactor : KeepsIn t (factor extent group (c.moveTo rest)) :=
        keepsIn_factor hg (h.moveTo (suffix_of_sign? hsign).1)
      split
      · exact h
      · split
        next f d hf =>
          rw [hf] at hfactor
          exact ih _ hfactor
        next error hf =>
          rw [hf] at hfactor
          split
          · exact h
          · exact hfactor

/-- However deep groups are nested, an expression ends in the text, or its error is located there.
-/
theorem keepsIn_expression (depth : Nat) (h : c.In t) :
    KeepsIn t (expression extent depth c) := by
  induction depth generalizing c with
  | zero => exact keepsIn_fault h _
  | succ depth ih =>
    rw [expression]
    exact (keepsIn_factor (fun d hd => ih hd) h).bind fun f d hd =>
      keepsIn_factors (fun d hd => ih hd) _ _ hd

/-- **A malformed unit expression is malformed at a place of its text**, the white space around it
apart. -/
theorem locatedIn_of_parse {e : UnitError} (h : parse t = .error e) :
    e.LocatedIn (Text.trim t) := by
  have hread : KeepsIn (Text.trim t) (read .whole (Text.trim t)) :=
    keepsIn_expression _ (Cursor.in_start _)
  simp only [parse] at h
  split at h
  · cases h
    exact ⟨_, Text.at_zero _⟩
  · match hr : read .whole (Text.trim t) with
    | .error e' =>
      rw [hr] at h hread
      cases h
      exact hread
    | .ok (a, d) =>
      rw [hr] at h hread
      simp only [bind, Except.bind] at h
      split at h
      · cases h
      · cases h
        exact ⟨d.rest, hread⟩

end UnitExpr

/-! ## Errors without a place -/

/-- An outcome that tells no position: a value, or an error of another kind. -/
def Placeless (r : Except UnitError α) : Prop :=
  ∀ position fault, r ≠ .error (.malformed position fault)

namespace Placeless

variable {β : Type}

theorem ok (a : α) : Placeless (.ok a) := nofun

/-- Two steps without a place are one. -/
theorem bind {r : Except UnitError α} {f : α → Except UnitError β} (h : Placeless r)
    (hf : ∀ a, Placeless (f a)) : Placeless (r >>= f) := by
  cases r with
  | ok a => exact hf a
  | error e => exact fun position fault heq => h position fault (congrArg _ (Except.error.inj heq))

/-- An error without a place is located in any text. -/
theorem locatedIn {r : Except UnitError α} {e : UnitError} (h : Placeless r) (he : r = .error e) :
    e.LocatedIn t := by
  cases e with
  | malformed position fault => exact absurd he (h position fault)
  | _ => trivial

end Placeless

namespace UnitSystem

variable (s : UnitSystem)

theorem placeless_combine (below : Bool) (a b : UnitProduct) : Placeless (a.combine below b) := by
  unfold UnitProduct.combine
  split
  · exact .ok _
  · exact nofun

theorem placeless_pow (a : UnitProduct) (n : Int8) : Placeless (a.pow n) := by
  unfold UnitProduct.pow
  split
  · exact .ok _
  · exact nofun

mutual

/-- The product of a term tells no position: a symbol is unknown, or a group has an exponent out of
range. -/
theorem placeless_termProduct : (term : UnitTerm) → Placeless (s.termProduct term)
  | .symbol name => by
    rw [termProduct]
    split
    · exact nofun
    · split
      · exact nofun
      · exact .ok _
  | .integer n => by
    rw [termProduct]
    exact .ok _
  | .group numerator denominator => by
    rw [termProduct]
    exact (placeless_factorsProduct false {} numerator).bind fun a =>
      placeless_factorsProduct true a denominator

theorem placeless_factorProduct : (f : UnitTerm × Int8) → Placeless (s.factorProduct f)
  | (term, n) => by
    rw [factorProduct]
    exact (placeless_termProduct term).bind fun a => placeless_pow a n

/-- Neither does the product of factors, one after the other. -/
theorem placeless_factorsProduct (below : Bool) (a : UnitProduct) :
    (fs : List (UnitTerm × Int8)) → Placeless (s.factorsProduct below a fs)
  | [] => by
    rw [factorsProduct]
    exact .ok _
  | f :: fs => by
    rw [factorsProduct]
    exact (placeless_factorProduct f).bind fun b => (placeless_combine below a b).bind fun a' =>
      placeless_factorsProduct below a' fs

end

/-- What a unit expression denotes is computed without the text. -/
theorem placeless_resolve (e : UnitExpr) (label : String) : Placeless (s.resolve e label) := by
  unfold resolve
  split
  · split
    · exact .ok _
    · exact nofun
  · exact (s.placeless_termProduct _).bind fun p => .ok _

/-- A target unit is malformed at a place of its text, the white space around it apart. -/
theorem locatedIn_of_parse {e : UnitError} (h : s.parse t = .error e) :
    e.LocatedIn (Text.trim t) := by
  rw [parse] at h
  cases ht : UnitExpr.parse t with
  | error e' =>
    rw [ht] at h
    cases h
    exact UnitExpr.locatedIn_of_parse ht
  | ok expr =>
    rw [ht] at h
    exact (s.placeless_resolve expr _).locatedIn h

/-- Behind a number, a unit is left out unless it is read whole. What is left to fail is arithmetic.
-/
theorem placeless_of_scan? {result : Except UnitError (MeasureUnit × Text)}
    (h : s.scan? t = some result) : Placeless result := by
  obtain ⟨⟨e, rest⟩, -, rfl⟩ := Option.map_eq_some_iff.1 h
  exact (s.placeless_resolve e _).bind fun u => .ok _

end UnitSystem

namespace Quantity

variable (p q : Quantity) (n : Int8)

theorem placeless_coherent (value : Float) (d? : Option Dimension) :
    Placeless (coherent value d?) := by
  cases d? with
  | some d => exact .ok _
  | none => exact nofun

theorem placeless_align : Placeless (p.align q) := by
  unfold align
  split
  · exact .ok _
  · exact nofun

theorem placeless_mul : Placeless (p.mul q) := by
  unfold mul
  split
  · exact .ok _
  · split
    · exact .ok _
    · exact placeless_coherent _ _

theorem placeless_div : Placeless (p.div q) := by
  unfold div
  split
  · exact .ok _
  · exact placeless_coherent _ _

/-- A power fails only with its exponents. -/
theorem placeless_pow : Placeless (q.pow n) := by
  unfold pow
  split
  · exact .ok _
  split
  · exact .ok _
  split
  · exact .ok _
  split
  · exact nofun
  · exact placeless_coherent _ _

theorem placeless_rootValue (value : Float) : Placeless (rootValue value n) := by
  unfold rootValue
  simp only
  split
  · split
    · exact nofun
    · exact .ok _
  · exact .ok _

theorem placeless_positiveRoot : Placeless (q.positiveRoot n) := by
  unfold positiveRoot
  split
  · exact .ok _
  split
  · exact nofun
  split
  · exact nofun
  · exact (placeless_rootValue n _).bind fun value => .ok _

theorem placeless_root : Placeless (q.root n) := by
  unfold root
  split
  · exact nofun
  split
  · split
    · exact nofun
    · exact (placeless_positiveRoot q _).bind fun r => placeless_div _ r
  · exact placeless_positiveRoot q n

theorem placeless_realPower (exponent : Float) : Placeless (q.realPower exponent) := by
  unfold realPower
  split
  · exact .ok _
  · exact nofun

theorem placeless_compare : Placeless (p.compare q) := by
  unfold compare
  split
  · unfold compareValues
    repeat' split
    all_goals first | exact .ok _ | exact nofun
  · exact nofun

theorem placeless_convert (u : MeasureUnit) : Placeless (q.convert u) := by
  unfold convert
  split
  · exact .ok _
  · exact nofun

end Quantity

/-- Whatever the exponent is, an operator of powers tells no position. -/
theorem Operator.placeless_power (op : Operator) (p q : Quantity) : Placeless (power op p q) := by
  unfold power
  split
  · exact nofun
  · simp only
    split
    · split
      · exact nofun
      · exact .ok _
    · generalize (if 1 ≤ q.coherentValue.abs then (op, q.coherentValue)
        else (op.inverse, 1 / q.coherentValue)) = choice
      split
      · exact Quantity.placeless_realPower _ _
      split
      · exact nofun
      split
      · exact Quantity.placeless_pow _ _
      · exact Quantity.placeless_root _ _

end QuantityCalc
