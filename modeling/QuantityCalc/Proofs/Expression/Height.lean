import QuantityCalc.Proofs.Expression.Operator
import QuantityCalc.Proofs.Run.Genuine
import Mathlib.Data.List.TakeWhile

/-!
# The height of the stack

Tokens are evaluated on a stack of operands. How many of them are left at the end depends on their
number only: `Postfix.height tokens n` counts them, and there is no number if an operator finds too
few. Evaluation follows this count (`meets_run`), also in a stream that is cut short
(`meets_run_cut`).
-/

namespace QuantityCalc

/-- The number of operands of an operator. -/
def Operator.arity (op : Operator) : Nat := if op.isUnary then 1 else 2

/-- Whether an operator is no parenthesis. -/
def Operator.Operates (op : Operator) : Prop := op ≠ .parenOpen ∧ op ≠ .parenClose

theorem Operator.Operates.isBinary {op : Operator} (h : op.Operates) :
    op.isBinary = !op.isUnary := by
  obtain ⟨hopen, hclose⟩ := h
  cases op <;> first | rfl | contradiction

theorem Operator.operates_of_mem_spelled {op : Operator} (h : op ∈ spelled) : op.Operates := by
  constructor <;> rintro rfl <;> simp [spelled] at h

namespace Postfix

variable {tokens : List Token} {ops : List Operator} {n m : Nat} {stack : Stack}

/-- The number of operands that tokens leave on a stack with so many of them. -/
def height : List Token → Nat → Option Nat
  | [], n => some n
  | .operand _ :: tokens, n => height tokens (n + 1)
  | .operator op :: tokens, n =>
    if op.arity ≤ n then height tokens (n - op.arity + 1) else none

/-- Whether there is no parenthesis among tokens. -/
def Clean (tokens : List Token) : Prop := ∀ op, .operator op ∈ tokens → op.Operates

theorem Clean.append {tokens' : List Token} (h : Clean tokens) (h' : Clean tokens') :
    Clean (tokens ++ tokens') := by
  intro op hop
  rcases List.mem_append.1 hop with hop | hop
  · exact h op hop
  · exact h' op hop

theorem clean_operators (h : ∀ op ∈ ops, op.Operates) : Clean (ops.map .operator) := by
  intro op hop
  obtain ⟨op', hop', heq⟩ := List.mem_map.1 hop
  cases heq
  exact h op hop'

theorem height_append (tokens tokens' : List Token) (n : Nat) :
    height (tokens ++ tokens') n = (height tokens n).bind (height tokens') := by
  induction tokens generalizing n with
  | nil => rfl
  | cons token tokens ih =>
    cases token with
    | operand q => exact ih (n + 1)
    | operator op =>
      simp only [List.cons_append, height]
      split
      · exact ih _
      · rfl

theorem height_pos (h : height tokens n = some m) (hn : 0 < n) : 0 < m := by
  induction tokens generalizing n with
  | nil => cases h; exact hn
  | cons token tokens ih =>
    cases token with
    | operand q => exact ih (n := n + 1) h n.succ_pos
    | operator op =>
      rw [height] at h
      split at h
      · exact ih h (Nat.succ_pos _)
      · cases h

theorem eq_nil_of_height_eq_zero (h : height tokens n = some 0) : tokens = [] := by
  cases tokens with
  | nil => rfl
  | cons token tokens =>
    cases token with
    | operand q => exact absurd (height_pos (n := n + 1) h n.succ_pos) (Nat.lt_irrefl 0)
    | operator op =>
      rw [height] at h
      split at h
      · exact absurd (height_pos h (Nat.succ_pos _)) (Nat.lt_irrefl 0)
      · cases h

/-- Operators leave one operand of those that they need. -/
theorem height_operators (h : ∀ op ∈ ops, op.Operates) (n : Nat) :
    height (ops.map .operator) (ops.countP Operator.isBinary + (n + 1)) = some (n + 1) := by
  induction ops with
  | nil =>
    rw [List.countP_nil, Nat.zero_add]
    rfl
  | cons op ops ih =>
    have hop := (h op List.mem_cons_self).isBinary
    have ih := ih fun op hop => h op (List.mem_cons_of_mem _ hop)
    rw [List.map_cons, height, List.countP_cons, hop, Operator.arity]
    cases op.isUnary
    · have heq : ops.countP Operator.isBinary + 1 + (n + 1) - 2 + 1 =
          ops.countP Operator.isBinary + (n + 1) := by omega
      simp only [Bool.not_false, if_true, Bool.false_eq_true, if_false]
      rw [if_pos (by omega), heq, ih]
    · have heq : ops.countP Operator.isBinary + (n + 1) - 1 + 1 =
          ops.countP Operator.isBinary + (n + 1) := by omega
      simp only [Bool.not_true, Bool.false_eq_true, if_false, Nat.add_zero, if_true]
      rw [if_pos (by omega), heq, ih]

/-! ## Evaluation -/

/-- An operator with two operands fails only if the arithmetic does. -/
theorem unit_of_binary {op : Operator} (hop : op.Operates) (hbinary : op.isUnary = false)
    {p q : Quantity} {e : Error} (h : op.binary p q = .error e) : ∃ fault, e = .unit fault := by
  have hunit {x : Except UnitError Quantity} (hx : x.mapError Error.unit = .error e) :
      ∃ fault, e = .unit fault := by
    cases x with
    | ok r => cases hx
    | error fault =>
      cases hx
      exact ⟨fault, rfl⟩
  obtain ⟨hopen, hclose⟩ := hop
  cases op with
  | parenOpen => exact absurd rfl hopen
  | parenClose => exact absurd rfl hclose
  | not | plus | minus => cases hbinary
  | _ => exact hunit h

theorem meets_binary {op : Operator} (hop : op.Operates) (hbinary : op.isUnary = false)
    (p q : Quantity) : Meets (fun _ => True) (op.binary p q) := by
  rcases h : op.binary p q with e | r
  · obtain ⟨fault, rfl⟩ := unit_of_binary hop hbinary h
    exact nofun
  · trivial

/-- The operands that an operator finds. -/
theorem operands_of_arity_le {op : Operator} (h : op.arity ≤ stack.length) :
    (op.isUnary = true ∧ ∃ q rest, stack = q :: rest) ∨
      op.isUnary = false ∧ ∃ q p rest, stack = q :: p :: rest := by
  rw [Operator.arity] at h
  cases hunary : op.isUnary with
  | true =>
    match stack with
    | [] => simp [hunary] at h
    | q :: rest => exact Or.inl ⟨rfl, q, rest, rfl⟩
  | false =>
    match stack with
    | [] => simp [hunary] at h
    | [q] => simp [hunary] at h
    | q :: p :: rest => exact Or.inr ⟨rfl, q, p, rest, rfl⟩

theorem run_unary {op : Operator} (hop : op.isUnary = true) (items : List Item) (q : Quantity)
    (stack : Stack) :
    run (.ok (.operator op) :: items) (q :: stack) = run items (op.unary q :: stack) := by
  rw [run, if_pos hop]

theorem run_binary {op : Operator} (hop : op.isUnary = false) (items : List Item) (p q : Quantity)
    (stack : Stack) : run (.ok (.operator op) :: items) (q :: p :: stack) =
      (op.binary p q >>= fun r => run items (r :: stack)) := by
  rw [run, if_neg (by simp [hop])]
  simp only
  cases op.binary p q <;> rfl

theorem run_underflow {op : Operator} (h : stack.length < op.arity) (items : List Item) :
    run (.ok (.operator op) :: items) stack = .error (underflow stack items) := by
  rw [Operator.arity] at h
  match stack with
  | [] => simp [run]
  | [q] =>
    split at h
    · exact absurd h (Nat.lt_irrefl 1)
    · rename_i hop
      rw [run, if_neg hop]
  | q :: p :: stack =>
    simp only [List.length_cons] at h
    split at h <;> omega

/-- **Evaluation follows the height**: if every operator finds its operands, the only errors are
those of the arithmetic. -/
theorem meets_run (hclean : Clean tokens) (h : height tokens stack.length = some n) :
    Meets (fun stack' => stack'.length = n) (run (tokens.map .ok) stack) := by
  induction tokens generalizing stack with
  | nil => cases h; rfl
  | cons token tokens ih =>
    have hrest : Clean tokens := fun op hop => hclean op (List.mem_cons_of_mem _ hop)
    cases token with
    | operand q => exact ih hrest h
    | operator op =>
      have hop := hclean op List.mem_cons_self
      rw [height] at h
      split at h
      next hle =>
        rw [List.map_cons]
        rcases operands_of_arity_le hle with ⟨hunary, q, stack, rfl⟩ | ⟨hbinary, q, p, stack, rfl⟩
        · rw [run_unary hunary]
          exact ih hrest (by simpa [Operator.arity, hunary] using h)
        · rw [run_binary hbinary]
          refine (meets_binary hop hbinary p q).bind fun r _ => ?_
          exact ih hrest (by simpa [Operator.arity, hbinary] using h)
      next => cases h

theorem underflow_cut (tokens : List Token) (stack : Stack) (position : Nat)
    (q? : Option Quantity) :
    underflow stack (tokens.map .ok ++ [.error (.unterminated position q?)]) =
      .unterminated position stack.head? := by
  induction tokens with
  | nil => rfl
  | cons token tokens ih => exact ih

/-- A stream that is cut short ends in a genuine error, even if an operator finds too few
operands. -/
theorem meets_run_cut (hclean : Clean tokens) (stack : Stack) (position : Nat)
    (q? : Option Quantity) : Meets (fun _ => False)
      (run (tokens.map .ok ++ [.error (.unterminated position q?)]) stack) := by
  induction tokens generalizing stack with
  | nil => exact nofun
  | cons token tokens ih =>
    have hrest : Clean tokens := fun op hop => hclean op (List.mem_cons_of_mem _ hop)
    cases token with
    | operand q => exact ih hrest _
    | operator op =>
      have hop := hclean op List.mem_cons_self
      rw [List.map_cons, List.cons_append]
      rcases Nat.lt_or_ge stack.length op.arity with hlt | hge
      · rw [run_underflow hlt, underflow_cut]
        exact nofun
      · rcases operands_of_arity_le hge with ⟨hunary, q, stack, rfl⟩ | ⟨hbinary, q, p, stack, rfl⟩
        · rw [run_unary hunary]
          exact ih hrest _
        · rw [run_binary hbinary]
          exact (meets_binary hop hbinary p q).bind fun r _ => ih hrest _

end Postfix

end QuantityCalc
