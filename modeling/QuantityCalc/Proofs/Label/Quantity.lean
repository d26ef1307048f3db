import QuantityCalc.Builtin
import QuantityCalc.Postfix
import QuantityCalc.Proofs.Label.Labelling
import QuantityCalc.Quantity.Basic

/-!
# Labels of results

The unit of a result is that of an operand, the unit of plain numbers, or a coherent unit
(`Quantity.StemsFrom`). So arithmetic leads from units that are backed to units that are backed,
whatever the labelling, and so do conversions and the evaluation of postfix streams.
-/

namespace QuantityCalc

variable {p q r : Quantity} {qs : List Quantity}

/-! ## Arithmetic -/

namespace Quantity

/-- Whether the unit of a quantity is that of one of some others, or is made by arithmetic. -/
def StemsFrom (r : Quantity) (qs : List Quantity) : Prop :=
  (∃ q ∈ qs, r.unit = q.unit) ∨ r.unit = .plain ∨ ∃ d, r.unit = .coherent d

namespace StemsFrom

theorem of_mem (h : q ∈ qs) (hunit : r.unit = q.unit) : r.StemsFrom qs := .inl ⟨q, h, hunit⟩

theorem plain (value : Float) (qs : List Quantity) : (Quantity.plain value).StemsFrom qs :=
  .inr (.inl rfl)

/-- A coherent unit is made from its dimension alone. -/
theorem coherent {value : Float} {d? : Option Dimension}
    (h : Quantity.coherent value d? = .ok r) : r.StemsFrom qs := by
  unfold Quantity.coherent at h
  split at h
  next d =>
    cases h
    exact .inr (.inr ⟨d, rfl⟩)
  next => cases h

/-- What stems from quantities stems from those that they stem from. -/
theorem trans {qs' : List Quantity} (h : r.StemsFrom qs) (hqs : ∀ q ∈ qs, q.StemsFrom qs') :
    r.StemsFrom qs' := by
  rcases h with ⟨q, hq, hunit⟩ | h
  · unfold StemsFrom
    rw [hunit]
    exact hqs q hq
  · exact .inr h

end StemsFrom

/-- A sum has the unit of its left side. -/
theorem stemsFrom_add (h : p.add q = .ok r) : r.StemsFrom [p, q] := by
  obtain ⟨value, -, h⟩ := Except.bind_eq_ok.1 h
  cases h
  exact .of_mem List.mem_cons_self rfl

/-- A difference has the unit of its left side. -/
theorem stemsFrom_sub (h : p.sub q = .ok r) : r.StemsFrom [p, q] := by
  obtain ⟨value, -, h⟩ := Except.bind_eq_ok.1 h
  cases h
  exact .of_mem List.mem_cons_self rfl

/-- A product has the unit of a side if the other one is a plain number, or a coherent one. -/
theorem stemsFrom_mul (h : p.mul q = .ok r) : r.StemsFrom [p, q] := by
  unfold mul at h
  split at h
  · cases h
    exact .of_mem List.mem_cons_self rfl
  · split at h
    · cases h
      exact .of_mem (q := q) (by simp) rfl
    · exact .coherent h

/-- A quotient has the unit of its left side if the right side is a plain number, or a coherent one.
-/
theorem stemsFrom_div (h : p.div q = .ok r) : r.StemsFrom [p, q] := by
  unfold div at h
  split at h
  · cases h
    exact .of_mem List.mem_cons_self rfl
  · exact .coherent h

theorem stemsFrom_pow {n : Int8} (h : q.pow n = .ok r) : r.StemsFrom [q] := by
  unfold pow at h
  split at h
  · cases h
    exact .plain 1 _
  · split at h
    · cases h
      exact .of_mem (q := q) (by simp) rfl
    · split at h
      · cases h
        exact .plain _ _
      · split at h
        · cases h
        · exact .coherent h

/-- A root of positive degree is the quantity itself, or has the coherent unit of its dimension. -/
theorem stemsFrom_positiveRoot {n : Int8} (h : q.positiveRoot n = .ok r) : r.StemsFrom [q] := by
  unfold positiveRoot at h
  split at h
  · cases h
    exact .of_mem (q := q) (by simp) rfl
  · split at h
    · cases h
    · split at h
      · cases h
      next d _ =>
        obtain ⟨value, -, h⟩ := Except.bind_eq_ok.1 h
        cases h
        unfold StemsFrom
        by_cases hd : d = .one
        · exact .inr (.inl (if_pos hd))
        · exact .inr (.inr ⟨d, if_neg hd⟩)

/-- A root to a negative degree is the inverse of one to a positive degree. -/
theorem stemsFrom_root {n : Int8} (h : q.root n = .ok r) : r.StemsFrom [q] := by
  unfold root at h
  split at h
  · cases h
  · split at h
    · split at h
      · cases h
      · obtain ⟨p, hp, h⟩ := Except.bind_eq_ok.1 h
        refine (stemsFrom_div h).trans fun q' hq' => ?_
        simp only [List.mem_cons, List.not_mem_nil, or_false] at hq'
        rcases hq' with rfl | rfl
        · exact .plain 1 _
        · exact stemsFrom_positiveRoot hp
    · exact stemsFrom_positiveRoot h

/-- A real power is a plain number. -/
theorem stemsFrom_realPower {exponent : Float} (h : q.realPower exponent = .ok r) :
    r.StemsFrom [q] := by
  unfold realPower at h
  split at h
  · cases h
    exact .plain _ _
  · cases h

end Quantity

/-! ## Operators and functions -/

namespace Operator

/-- The exponent of a power has no part in its unit. -/
theorem stemsFrom_power {op : Operator} (h : power op p q = .ok r) : r.StemsFrom [p] := by
  simp only [power] at h
  split at h
  · cases h
  · split at h
    · split at h
      · cases h
      · cases h
        exact .plain 1 _
    · generalize (if 1 ≤ q.coherentValue.abs then (op, q.coherentValue)
        else (op.inverse, 1 / q.coherentValue)) = choice at h
      split at h
      · exact Quantity.stemsFrom_realPower h
      · split at h
        · cases h
        · split at h
          · exact Quantity.stemsFrom_pow h
          · exact Quantity.stemsFrom_root h

/-- A comparison makes a plain number. -/
theorem stemsFrom_comparison {holds : Ordering → Bool} (h : comparison p q holds = .ok r) :
    r.StemsFrom qs := by
  obtain ⟨order, -, h⟩ := Except.bind_eq_ok.1 h
  cases h
  exact .plain _ _

/-- Every operator of two operands makes its unit of theirs, or a coherent one. -/
theorem stemsFrom_binary {op : Operator} (h : op.binary p q = .ok r) : r.StemsFrom [p, q] := by
  have hpower {op : Operator} (h : power op p q = .ok r) : r.StemsFrom [p, q] := by
    refine (stemsFrom_power h).trans fun q' hq' => ?_
    rw [List.mem_singleton.1 hq']
    exact .of_mem List.mem_cons_self rfl
  cases op with
  | add => exact Quantity.stemsFrom_add (Except.mapError_eq_ok.1 h)
  | sub => exact Quantity.stemsFrom_sub (Except.mapError_eq_ok.1 h)
  | mul => exact Quantity.stemsFrom_mul (Except.mapError_eq_ok.1 h)
  | div => exact Quantity.stemsFrom_div (Except.mapError_eq_ok.1 h)
  | pow | root => exact hpower (Except.mapError_eq_ok.1 h)
  | equals | differs | lessThan | lessOrEqual | greaterThan | greaterOrEqual =>
    exact stemsFrom_comparison (Except.mapError_eq_ok.1 h)
  | parenOpen | parenClose | not | plus | minus => cases h

theorem stemsFrom_unary (op : Operator) (q : Quantity) : (op.unary q).StemsFrom [q] := by
  unfold unary
  split
  · exact .of_mem (q := q) (by simp) rfl
  · exact .of_mem (q := q) (by simp) rfl
  · exact .plain _ _

end Operator

namespace Builtin

/-- The least and the greatest of some quantities are among them. -/
theorem stemsFrom_extreme {beats : Ordering} (h : extreme beats q qs = .ok r) :
    r.StemsFrom (q :: qs) := by
  induction qs generalizing q with
  | nil =>
    cases h
    exact .of_mem List.mem_cons_self rfl
  | cons p qs ih =>
    obtain ⟨order, -, h⟩ := Except.bind_eq_ok.1 h
    split at h
    · refine (ih h).trans fun q' hq' => .of_mem (q := q') ?_ rfl
      exact List.mem_cons_of_mem q hq'
    · refine (ih h).trans fun q' hq' => .of_mem (q := q') ?_ rfl
      rcases List.mem_cons.1 hq' with rfl | hq'
      · exact List.mem_cons_self
      · exact List.mem_cons_of_mem q (List.mem_cons_of_mem p hq')

theorem stemsFrom_apply {f : Builtin} (h : f.apply q qs = .ok r) : r.StemsFrom (q :: qs) := by
  have hkeep {g : Float → Float} (h : keepUnit g q = .ok r) : r.StemsFrom (q :: qs) := by
    cases h
    exact .of_mem (q := q) List.mem_cons_self rfl
  have hplain {g : Float → Float} (h : ofPlain g q = .ok r) : r.StemsFrom (q :: qs) := by
    unfold ofPlain at h
    split at h
    · cases h
      exact .plain _ _
    · cases h
  cases f with
  | abs | round | floor | ceil => exact hkeep h
  | sqrt =>
    refine (Quantity.stemsFrom_root (Except.mapError_eq_ok.1 h)).trans fun q' hq' => ?_
    rw [List.mem_singleton.1 hq']
    exact .of_mem List.mem_cons_self rfl
  | min | max => exact stemsFrom_extreme h
  | _ => exact hplain h

/-- A call of a built-in function makes its unit of those of the arguments, or a coherent one. -/
theorem stemsFrom_call {f : Builtin} {args : List Quantity} (h : f.call args = .ok r) :
    r.StemsFrom args := by
  unfold call at h
  split at h
  · split at h
    · exact stemsFrom_apply h
    · cases h
  · cases h

end Builtin

/-! ## Quantities whose units are backed -/

/-- Whether the units of some quantities are backed. -/
def UnitSystem.BacksAll (s : UnitSystem) (qs : List Quantity) : Prop := ∀ q ∈ qs, s.Backs q.unit

namespace Labelling

variable (L : Labelling) {s s' : UnitSystem} {u : MeasureUnit}

/-- Whether the units of some quantities are backed. -/
def BacksAll (s : UnitSystem) (qs : List Quantity) : Prop := ∀ q ∈ qs, L.Backs s q.unit

variable {L}

theorem backsAll_nil : L.BacksAll s [] := nofun

theorem backsAll_cons (hq : L.Backs s q.unit) (hqs : L.BacksAll s qs) : L.BacksAll s (q :: qs) :=
  List.forall_mem_cons.2 ⟨hq, hqs⟩

theorem backsAll_singleton (hq : L.Backs s q.unit) : L.BacksAll s [q] :=
  List.forall_mem_singleton.2 hq

/-- As a system grows, it goes on to back what it backed. -/
theorem backsAll_of_grows (hs : s.Sound) (h : s.Grows s') (hs' : s'.Ordered)
    (hqs : L.BacksAll s qs) : L.BacksAll s' qs :=
  fun q hq => L.grows hs h hs' (hqs q hq)

/-- **Arithmetic leads from units that are backed to units that are backed.** -/
theorem backs_of_stemsFrom (hs : s.Sound) (h : r.StemsFrom qs) (hqs : L.BacksAll s qs) :
    L.Backs s r.unit := by
  rcases h with ⟨q, hq, hunit⟩ | hunit | ⟨d, hunit⟩
  · rw [hunit]
    exact hqs q hq
  · rw [hunit]
    exact L.plain s
  · rw [hunit]
    exact L.coherent d hs

/-- A conversion has the target unit. -/
theorem backs_of_convert (hu : L.Backs s u) (h : q.convert u = .ok r) : L.Backs s r.unit := by
  unfold Quantity.convert at h
  split at h
  · cases h
    exact hu
  · cases h

/-- Converted or combined, the unit is backed if the target unit is. -/
theorem backs_convertOrCombine (q : Quantity) (hu : L.Backs s u) :
    L.Backs s (q.convertOrCombine u).unit := by
  unfold Quantity.convertOrCombine
  split
  · exact hu
  · exact L.combined ⟨_, _, rfl⟩

/-- The named unit that a computed quantity is shown in is one of the system, so it is backed. -/
theorem backs_relabel (hs : s.Sound) (hq : L.Backs s q.unit) :
    L.Backs s (q.relabel s).unit := by
  unfold Quantity.relabel
  split
  · exact hq
  · split
    · exact L.plain s
    · split
      next u hu => exact L.namedFor? hs hu
      next => exact hq

end Labelling

/-! ## Postfix streams -/

namespace Postfix

variable {L : Labelling} {s : UnitSystem}

/-- The operand that an item of a stream is. -/
def Item.operand? : Item → Option Quantity
  | .ok (.operand q) => some q
  | _ => none

/-- The operands in a stream. -/
def operands (items : List Item) : List Quantity := items.filterMap Item.operand?

theorem operands_append (items items' : List Item) :
    operands (items ++ items') = operands items ++ operands items' :=
  List.filterMap_append

/-- **A stream of operands that are backed leaves operands that are backed.** -/
theorem backsAll_run (hs : s.Sound) {items : List Item} {stack stack' : Stack}
    (h : run items stack = .ok stack') (hitems : L.BacksAll s (operands items))
    (hstack : L.BacksAll s stack) : L.BacksAll s stack' := by
  induction items generalizing stack with
  | nil =>
    cases h
    exact hstack
  | cons item items ih =>
    match item with
    | .error e =>
      cases e <;> cases h
    | .ok (.operand q) =>
      obtain ⟨hq, hitems⟩ := List.forall_mem_cons.1 hitems
      exact ih h hitems (Labelling.backsAll_cons hq hstack)
    | .ok (.operator op) =>
      simp only [run] at h
      split at h
      · split at h
        next q stack =>
          obtain ⟨hq, hstack⟩ := List.forall_mem_cons.1 hstack
          refine ih h hitems (Labelling.backsAll_cons ?_ hstack)
          refine Labelling.backs_of_stemsFrom hs (op.stemsFrom_unary q) ?_
          exact Labelling.backsAll_singleton hq
        next => cases h
      · split at h
        next q p stack =>
          obtain ⟨hq, hstack⟩ := List.forall_mem_cons.1 hstack
          obtain ⟨hp, hstack⟩ := List.forall_mem_cons.1 hstack
          split at h
          next r hr =>
            refine ih h hitems (Labelling.backsAll_cons ?_ hstack)
            refine Labelling.backs_of_stemsFrom hs (Operator.stemsFrom_binary hr) ?_
            exact Labelling.backsAll_cons hp (Labelling.backsAll_singleton hq)
          next => cases h
        next => cases h

/-- The value of a stream is what is left on the stack. -/
theorem backs_of_value? {stack : Stack} {q? : Option Quantity} (h : value? stack = .ok q?)
    (hstack : L.BacksAll s stack) : L.BacksAll s q?.toList := by
  unfold value? at h
  split at h
  · cases h
    exact Labelling.backsAll_nil
  · cases h
    exact hstack
  · cases h

end Postfix

end QuantityCalc
