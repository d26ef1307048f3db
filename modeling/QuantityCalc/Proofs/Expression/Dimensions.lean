import QuantityCalc.Proofs.Dimension.Exact
import QuantityCalc.Proofs.Expression.Height
import QuantityCalc.Proofs.Expression.Tree
import QuantityCalc.Proofs.Quantity.Order

/-!
# Dimensions of streams

Which dimension a stream of tokens has, and whether it has one, depends on the exponents of its
operands only. `Exponents.evaluate` is a machine on a stack of exponents without bounds: a product
adds them, a quotient subtracts them, both if the result fits signed bytes, and the sides of a sum,
a difference or a comparison have to agree.

For streams without powers and roots, evaluation agrees with this machine, also on why it fails,
unless it comes to a comparison with a value that is not a number (`evaluate_exponents`).
-/

namespace QuantityCalc

/-- Why a stream has no dimension. -/
inductive DimensionFault where
  /-- The sides of a sum, a difference or a comparison have different dimensions. -/
  | mismatch
  /-- An exponent leaves the range of a signed byte. -/
  | overflow
  /-- An operator finds too few operands. -/
  | underflow
  /-- So many operands are left. -/
  | leftover (count : Nat)
deriving DecidableEq

/-- The fault of the dimensions that an error reports. -/
def Error.dimensionFault? : Error → Option DimensionFault
  | .unit (.incompatible ..) => some .mismatch
  | .unit .overflow => some .overflow
  | .internal .underflow => some .underflow
  | .internal (.leftover n) => some (.leftover n)
  | _ => none

/-- The exponents of a quantity. -/
def Quantity.exponents (q : Quantity) : Exponents := q.dimension.exponents

namespace Exponents

/-- An item of a stream in which operands are known by their exponents only. -/
inductive Item where
  /-- An operand. -/
  | operand (v : Exponents)
  /-- An operator, which takes the operands before it. -/
  | operator (op : Operator)

/-- The exponents, if they fit signed bytes. -/
def fitted (v : Exponents) : Except DimensionFault Exponents :=
  if v.Fits then .ok v else .error .overflow

/-- The exponents of the result of an operator with two operands. -/
def binary (op : Operator) (v w : Exponents) : Except DimensionFault Exponents :=
  match op with
  | .mul => fitted (v + w)
  | .div => fitted (v - w)
  | .add | .sub => if v = w then .ok v else .error .mismatch
  | _ => if v = w then .ok 0 else .error .mismatch

/-- The exponents of the result of an operator with one operand. -/
def unary (op : Operator) (v : Exponents) : Exponents := if op = .not then 0 else v

/-- Runs a stream on a stack, the topmost operand first. -/
def run : List Item → List Exponents → Except DimensionFault (List Exponents)
  | [], stack => .ok stack
  | .operand v :: items, stack => run items (v :: stack)
  | .operator op :: items, stack =>
    if op.isUnary then
      match stack with
      | v :: stack => run items (unary op v :: stack)
      | _ => .error .underflow
    else
      match stack with
      | w :: v :: stack => do run items ((← binary op v w) :: stack)
      | _ => .error .underflow

/-- The exponents that a finished run leaves, none for an empty stream. -/
def result? : List Exponents → Except DimensionFault (Option Exponents)
  | [] => .ok none
  | [v] => .ok (some v)
  | stack => .error (.leftover stack.length)

/-- The exponents of a stream, none if it is empty. -/
def evaluate (items : List Item) : Except DimensionFault (Option Exponents) := do
  result? (← run items [])

end Exponents

/-- A token of which only exponents are known. -/
def Token.exponents : Token → Exponents.Item
  | operand q => .operand q.exponents
  | operator op => .operator op

namespace Operator

variable {op : Operator} {p q : Quantity}

/-- Whether the exponents of the operands determine those of the result. -/
def Measures (op : Operator) : Prop := op.Operates ∧ op ≠ .pow ∧ op ≠ .root

/-- Whether an operator compares two quantities of one dimension, and one of them has a value that
is not a number. -/
def ComparesNaN (op : Operator) (p q : Quantity) : Prop :=
  op.isComparison = true ∧ p.dimension = q.dimension ∧
    (p.coherentValue.isNaN = true ∨ q.coherentValue.isNaN = true)

end Operator

namespace Postfix

/-- The error of a comparison with a value that is not a number. -/
abbrev notComparable : Error := .unit (.domain .notComparable)

/-- Whether an outcome has the exponents of another one, or fails for the fault that it has. -/
def Measured {α β : Type} (r : α → β → Prop) : Except Error α → Except DimensionFault β → Prop
  | .ok a, .ok b => r a b
  | .error e, .error fault => e.dimensionFault? = some fault
  | _, _ => False

/-- Whether a token is a comparison with a value that is not a number. -/
def AtNaN : Token → Stack → Prop
  | .operator op, q :: p :: _ => op.ComparesNaN p q
  | _, _ => False

/-- Whether a run comes to a comparison with a value that is not a number. -/
def MeetsNaN (tokens : List Token) (stack : Stack) : Prop :=
  ∃ before token after stack', tokens = before ++ token :: after ∧
    run (before.map .ok) stack = .ok stack' ∧ AtNaN token stack'

variable {tokens : List Token} {token : Token} {stack : Stack} {op : Operator} {p q : Quantity}

/-! ## One operator -/

theorem Measured.bind {α α' β β' : Type} {r : α → β → Prop} {r' : α' → β' → Prop}
    {x : Except Error α} {y : Except DimensionFault β} {f : α → Except Error α'}
    {g : β → Except DimensionFault β'} (h : Measured r x y)
    (hf : ∀ a b, x = .ok a → r a b → Measured r' (f a) (g b)) :
    Measured r' (x >>= f) (y >>= g) := by
  match x, y with
  | .ok a, .ok b => exact hf a b rfl h
  | .error _, .error _ => exact h

theorem exponents_unary (h : op.isUnary = true) (q : Quantity) :
    (op.unary q).exponents = Exponents.unary op q.exponents := by
  cases op <;> first | rfl | exact Dimension.exponents_one | simp [Operator.isUnary] at h

/-- A coherent quantity has the exponents of its dimension, if they fit. -/
theorem measured_coherent (value : Float) (v : Exponents) :
    Measured (fun q v => q.exponents = v)
      ((Quantity.coherent value (Dimension.ofInts? v)).mapError .unit) (Exponents.fitted v) := by
  rw [Exponents.fitted]
  cases h : Dimension.ofInts? v with
  | none =>
    rw [if_neg (Dimension.ofInts?_eq_none_iff.1 h)]
    rfl
  | some d =>
    have hd := Dimension.ofInts?_eq_some_iff.1 h
    rw [← hd, if_pos (Dimension.fits_exponents d)]
    rfl

theorem fitted_exponents (q : Quantity) : Exponents.fitted q.exponents = .ok q.exponents :=
  if_pos (Dimension.fits_exponents q.dimension)

theorem exponents_of_isPlain (h : q.unit.isPlain = true) : q.exponents = 0 := by
  simp only [MeasureUnit.isPlain, Bool.and_eq_true, decide_eq_true_eq] at h
  rw [Quantity.exponents, Quantity.dimension, h.1.1, Dimension.exponents_one]

/-- The shortcuts for plain numbers do not change the dimension of a product. -/
theorem measured_mul (p q : Quantity) : Measured (fun r v => r.exponents = v)
    ((p.mul q).mapError .unit) (Exponents.fitted (p.exponents + q.exponents)) := by
  rw [Quantity.mul]
  split
  · rename_i hq
    rw [exponents_of_isPlain hq, add_zero, fitted_exponents]
    rfl
  · split
    · rename_i hp
      rw [exponents_of_isPlain hp, zero_add, fitted_exponents]
      rfl
    · rw [Dimension.mul?_eq]
      exact measured_coherent _ _

theorem measured_div (p q : Quantity) : Measured (fun r v => r.exponents = v)
    ((p.div q).mapError .unit) (Exponents.fitted (p.exponents - q.exponents)) := by
  rw [Quantity.div]
  split
  · rename_i hq
    rw [exponents_of_isPlain hq, sub_zero, fitted_exponents]
    rfl
  · rw [Dimension.div?_eq]
    exact measured_coherent _ _

theorem convertible_iff : p.unit.Convertible q.unit ↔ p.exponents = q.exponents :=
  Dimension.exponents_injective.eq_iff.symm

/-- What asks for sides of one dimension fails for no other reason than the machine. -/
theorem measured_of_convertible {x : Except UnitError Quantity} {v : Exponents}
    (hsame : p.unit.Convertible q.unit → ∃ r, x = .ok r ∧ r.exponents = v)
    (hother : ¬p.unit.Convertible q.unit → x = .error (Quantity.incompatible p.unit q.unit)) :
    Measured (fun r v => r.exponents = v) (x.mapError .unit)
      (if p.exponents = q.exponents then .ok v else .error .mismatch) := by
  by_cases h : p.unit.Convertible q.unit
  · obtain ⟨r, rfl, hr⟩ := hsame h
    rw [if_pos (convertible_iff.1 h)]
    exact hr
  · rw [hother h, if_neg (mt convertible_iff.2 h)]
    rfl

theorem measured_comparison (h : ¬(p.dimension = q.dimension ∧
    (p.coherentValue.isNaN = true ∨ q.coherentValue.isNaN = true))) (holds : Ordering → Bool) :
    Measured (fun r v => r.exponents = v) ((Operator.comparison p q holds).mapError .unit)
      (if p.exponents = q.exponents then .ok 0 else .error .mismatch) := by
  refine measured_of_convertible (fun hsame => ?_) (fun hother => ?_)
  · rw [Operator.comparison, Quantity.compare, if_pos hsame]
    cases hvalues : Quantity.compareValues p.coherentValue q.coherentValue with
    | ok o => exact ⟨_, rfl, Dimension.exponents_one⟩
    | error e => exact absurd ⟨hsame, (Quantity.compareValues_eq_error_iff.1 hvalues).2⟩ h
  · rw [Operator.comparison, Quantity.compare, if_neg hother]
    rfl

theorem measured_binary (hop : op.Measures) (hbinary : op.isUnary = false)
    (h : ¬op.ComparesNaN p q) : Measured (fun r v => r.exponents = v) (op.binary p q)
      (Exponents.binary op p.exponents q.exponents) := by
  obtain ⟨⟨hopen, hclose⟩, hpow, hroot⟩ := hop
  cases op with
  | parenOpen => exact absurd rfl hopen
  | parenClose => exact absurd rfl hclose
  | pow => exact absurd rfl hpow
  | root => exact absurd rfl hroot
  | not | plus | minus => cases hbinary
  | mul => exact measured_mul p q
  | div => exact measured_div p q
  | add | sub =>
    refine measured_of_convertible (fun hsame => ?_) (fun hother => ?_)
    · simp only [Quantity.add, Quantity.sub, Quantity.align, if_pos hsame]
      exact ⟨_, rfl, rfl⟩
    · simp only [Quantity.add, Quantity.sub, Quantity.align, if_neg hother]
      rfl
  | equals | differs | lessThan | lessOrEqual | greaterThan | greaterOrEqual =>
    exact measured_comparison (fun hnan => h ⟨rfl, hnan⟩) _

theorem binary_of_comparesNaN (h : op.ComparesNaN p q) :
    op.binary p q = .error notComparable := by
  obtain ⟨hop, hsame, hnan⟩ := h
  have hcompare : p.compare q = .error (.domain .notComparable) := by
    rw [Quantity.compare, if_pos (show p.unit.Convertible q.unit from hsame)]
    exact Quantity.compareValues_eq_error_iff.2 ⟨rfl, hnan⟩
  cases op with
  | equals | differs | lessThan | lessOrEqual | greaterThan | greaterOrEqual =>
    simp only [Operator.binary, Operator.comparison, hcompare]
    rfl
  | _ => cases hop

/-! ## One token -/

theorem run_cons (token : Token) (tokens : List Token) (stack : Stack) :
    run ((token :: tokens).map .ok) stack = run [.ok token] stack >>= run (tokens.map .ok) :=
  Expression.run_append [token] tokens stack

theorem exponents_run_cons (item : Exponents.Item) (items : List Exponents.Item)
    (stack : List Exponents) :
    Exponents.run (item :: items) stack = Exponents.run [item] stack >>= Exponents.run items := by
  cases item with
  | operand v => rfl
  | operator op =>
    simp only [Exponents.run]
    split
    · split <;> rfl
    · split
      · cases Exponents.binary op _ _ <;> rfl
      · rfl

/-- **One step** leaves the exponents that the machine finds, or fails for the same fault. -/
theorem measured_step (h : ∀ op, token = .operator op → op.Measures) (hnan : ¬AtNaN token stack) :
    Measured (fun stack vs => stack.map Quantity.exponents = vs) (run [.ok token] stack)
      (Exponents.run [token.exponents] (stack.map Quantity.exponents)) := by
  cases token with
  | operand q => rfl
  | operator op =>
    have hop := h op rfl
    simp only [Token.exponents, Exponents.run]
    cases hunary : op.isUnary with
    | true =>
      cases stack with
      | nil =>
        rw [run_underflow (by simp [Operator.arity, hunary])]
        rfl
      | cons q stack =>
        rw [run_unary hunary]
        exact congrArg (· :: _) (exponents_unary hunary q)
    | false =>
      rcases stack with _ | ⟨q, _ | ⟨p, stack⟩⟩
      · rw [run_underflow (by simp [Operator.arity, hunary])]
        rfl
      · rw [run_underflow (by simp [Operator.arity, hunary])]
        rfl
      · rw [run_binary hunary]
        refine (measured_binary hop hunary hnan).bind fun r v _ hr => ?_
        exact congrArg (· :: _) hr

theorem run_of_atNaN (h : AtNaN token stack) (tokens : List Token) :
    run ((token :: tokens).map .ok) stack = .error notComparable := by
  match token, stack with
  | .operator op, q :: p :: rest =>
    have hunary : op.isUnary = false := by
      have hop := h.1
      cases op <;> first | rfl | cases hop
    rw [List.map_cons, run_binary hunary, binary_of_comparesNaN h]
    rfl

/-! ## A stream -/

theorem meetsNaN_cons : MeetsNaN (token :: tokens) stack ↔
    AtNaN token stack ∨ ∃ stack', run [.ok token] stack = .ok stack' ∧ MeetsNaN tokens stack' := by
  constructor
  · rintro ⟨before, token', after, stack', htokens, hrun, hnan⟩
    cases before with
    | nil =>
      cases htokens
      cases hrun
      exact Or.inl hnan
    | cons _ before =>
      cases htokens
      rw [run_cons] at hrun
      obtain ⟨stack'', hstack, hrun⟩ := Except.bind_eq_ok.1 hrun
      exact Or.inr ⟨stack'', hstack, before, token', after, stack', rfl, hrun, hnan⟩
  · rintro (hnan | ⟨stack'', hstack, before, token', after, stack', rfl, hrun, hnan⟩)
    · exact ⟨[], token, tokens, stack, rfl, rfl, hnan⟩
    · refine ⟨token :: before, token', after, stack', rfl, ?_, hnan⟩
      rw [run_cons]
      exact Except.bind_eq_ok.2 ⟨stack'', hstack, hrun⟩

/-- **A run** has the exponents of the machine, or fails for the same fault, unless it comes to a
comparison with a value that is not a number. -/
theorem run_exponents (h : ∀ op, .operator op ∈ tokens → op.Measures) (stack : Stack) :
    (MeetsNaN tokens stack ∧ run (tokens.map .ok) stack = .error notComparable) ∨
      (¬MeetsNaN tokens stack ∧ Measured (fun stack vs => stack.map Quantity.exponents = vs)
        (run (tokens.map .ok) stack)
        (Exponents.run (tokens.map Token.exponents) (stack.map Quantity.exponents))) := by
  induction tokens generalizing stack with
  | nil =>
    refine Or.inr ⟨?_, rfl⟩
    rintro ⟨before, _, _, _, htokens, -⟩
    cases before <;> cases htokens
  | cons token tokens ih =>
    rw [meetsNaN_cons]
    by_cases hnan : AtNaN token stack
    · exact Or.inl ⟨Or.inl hnan, run_of_atNaN hnan tokens⟩
    have hstep := measured_step (fun op hop => h op (hop ▸ List.mem_cons_self)) hnan
    have ih := ih fun op hop => h op (List.mem_cons_of_mem _ hop)
    rw [run_cons, List.map_cons, exponents_run_cons]
    by_cases hmeets : ∃ stack', run [.ok token] stack = .ok stack' ∧ MeetsNaN tokens stack'
    · obtain ⟨stack', hrun, hrest⟩ := hmeets
      refine Or.inl ⟨Or.inr ⟨stack', hrun, hrest⟩, ?_⟩
      rw [hrun]
      exact ((ih stack').resolve_right fun hright => hright.1 hrest).2
    · refine Or.inr ⟨not_or.2 ⟨hnan, hmeets⟩, hstep.bind ?_⟩
      rintro stack' _ hrun rfl
      exact ((ih stack').resolve_left fun hleft => hmeets ⟨stack', hrun, hleft.1⟩).2

theorem measured_value? (stack : Stack) :
    Measured (fun q? v? => q?.map Quantity.exponents = v?) (value? stack)
      (Exponents.result? (stack.map Quantity.exponents)) := by
  match stack with
  | [] => rfl
  | [q] => rfl
  | q :: p :: stack => simp [value?, Exponents.result?, Measured, Error.dimensionFault?]

/-- **Dimensions of streams**: evaluation fails if it comes to a comparison with a value that is not
a number. Otherwise it agrees with the machine on exponents: it has a value if and only if the
machine finds exponents, and these are the exponents of the value, and it fails for the fault that
the machine finds. -/
theorem evaluate_exponents (h : ∀ op, .operator op ∈ tokens → op.Measures) :
    (MeetsNaN tokens [] ∧ evaluate (tokens.map .ok) = .error notComparable) ∨
      (¬MeetsNaN tokens [] ∧ Measured (fun q? v? => q?.map Quantity.exponents = v?)
        (evaluate (tokens.map .ok)) (Exponents.evaluate (tokens.map Token.exponents))) := by
  rcases run_exponents h [] with ⟨hmeets, hrun⟩ | ⟨hmeets, hrun⟩
  · refine Or.inl ⟨hmeets, ?_⟩
    rw [evaluate, hrun]
    rfl
  · refine Or.inr ⟨hmeets, hrun.bind ?_⟩
    rintro stack _ - rfl
    exact measured_value? stack

/-- The stream of `6 / (2 s) == -(3)`, a comparison of different dimensions. -/
def unequal : List Token :=
  [.operand (.plain 6), .operand ⟨2, .coherent (.base .time)⟩, .operator .div,
    .operand (.plain 3), .operator .minus, .operator .equals]

theorem evaluate_exponents_unequal :
    Exponents.evaluate (unequal.map Token.exponents) = .error .mismatch ∧
      (MeetsNaN unequal [] ∧ evaluate (unequal.map .ok) = .error notComparable ∨
        ¬MeetsNaN unequal [] ∧ Measured (fun q? v? => q?.map Quantity.exponents = v?)
          (evaluate (unequal.map .ok)) (Exponents.evaluate (unequal.map Token.exponents))) := by
  refine ⟨by decide, evaluate_exponents ?_⟩
  simp [unequal, Operator.Measures, Operator.Operates]

end Postfix

end QuantityCalc
