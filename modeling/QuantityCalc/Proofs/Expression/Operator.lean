import QuantityCalc.Expression.Yard

/-!
# Unary and binary operators

Apart from the parentheses, an operator has one operand and the highest rank, or two operands.
-/

namespace QuantityCalc

namespace Operator

/-- Whether an operator has two operands. -/
def isBinary (op : Operator) : Bool := 0 < op.rank && !op.isUnary

/-- The operator with the same spelling that is read where an operand precedes it. -/
def behindOperand : Operator → Operator
  | plus => add
  | minus => sub
  | op => op

variable {op : Operator}

theorem asUnary?_behindOperand (h : op.isUnary = true) : op.behindOperand.asUnary? = some op := by
  cases op <;> first | rfl | simp [isUnary] at h

theorem behindOperand_mem_spelled (h : op.isUnary = true) : op.behindOperand ∈ spelled := by
  revert h
  cases op <;> decide

theorem mem_spelled_of_isBinary (h : op.isBinary = true) : op ∈ spelled := by
  revert h
  cases op <;> decide

theorem ne_not_of_isBinary (h : op.isBinary = true) : op ≠ not := by
  rintro rfl
  simp [isBinary, isUnary] at h

theorem rank_of_isUnary (h : op.isUnary = true) : op.rank = 6 := by
  cases op <;> first | rfl | simp [isUnary] at h

theorem rank_lt_of_isBinary (h : op.isBinary = true) : op.rank < 6 := by
  revert h
  cases op <;> decide

theorem ne_parenOpen_of_rank_pos (h : 0 < op.rank) : op ≠ parenOpen := by
  rintro rfl
  exact absurd h (Nat.lt_irrefl 0)

theorem rank_pos_of_isBinary (h : op.isBinary = true) : 0 < op.rank := by
  simp only [isBinary, Bool.and_eq_true, decide_eq_true_eq] at h
  exact h.1

theorem isUnary_of_isBinary (h : op.isBinary = true) : op.isUnary = false := by
  simp only [isBinary, Bool.and_eq_true, Bool.not_eq_true'] at h
  exact h.2

end Operator

theorem Yard.yields_unary {op : Operator} (hop : op.isUnary = true) (w : Operator) :
    Yard.yields w op = false := by
  have hle : ¬op.rank < w.rank := by
    rw [Operator.rank_of_isUnary hop]
    cases w <;> decide
  simp [Yard.yields, hle, hop]

end QuantityCalc
