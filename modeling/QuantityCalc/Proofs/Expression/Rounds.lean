import QuantityCalc.Proofs.Except
import QuantityCalc.Proofs.Expression.Height

/-!
# The yard and the height of the stack

A yard fits a stack of a certain height (`Yard.Fits`): for each binary operator that waits the left
operand is on the stack, and if the last word was an operand, it is there in addition. `Yard.Leads`
is what a word does to the yard. A word leads from a yard that fits the stack to a yard that fits
the stack behind the tokens that it completes (`Yard.fits_of_leads`). So at the end of an
expression the operators that are left leave one operand (`Yard.height_drain`).
-/

namespace QuantityCalc.Yard

open Postfix

variable {y y' : Yard} {tokens : List Token} {ops : List Operator} {n : Nat}

/-- A yard fits a stack of so many operands. -/
structure Fits (y : Yard) (n : Nat) : Prop where
  height : n = y.waiting.countP Operator.isBinary + if y.last = .operand then 1 else 0
  idle : y.last = .none → y.waiting = []
  closed : .parenClose ∉ y.waiting

/-- What reading a word completes, and the yard behind it. -/
inductive Leads (y : Yard) : List Token → Yard → Prop where
  | operand (q : Quantity) (hlast : y.last ≠ .operand) : Leads y [.operand q] y.operand
  | openGroup (hlast : y.last ≠ .operand) : Leads y [] y.openGroup
  | closeGroup {ops : List Operator} {y' : Yard} (h : y.closeGroup = .ok (ops, y')) :
      Leads y (ops.map .operator) y'
  | operator {op : Operator} {ops : List Operator} {y' : Yard} (hop : op ∈ Operator.spelled)
      (h : y.operator op = .ok (ops, y')) : Leads y (ops.map .operator) y'

theorem fits_start : Fits {} 0 := ⟨rfl, fun _ => rfl, List.not_mem_nil⟩

theorem Fits.operates_of_mem (hy : y.Fits n) {op : Operator} (hop : op ∈ y.waiting)
    (hne : op ≠ .parenOpen) : op.Operates :=
  ⟨hne, fun heq => hy.closed (heq ▸ hop)⟩

/-! ## Closing parentheses -/

theorem countP_group (waiting : List Operator) : waiting.countP Operator.isBinary =
    (waiting.takeWhile (· ≠ .parenOpen)).countP Operator.isBinary +
      (waiting.dropWhile (· ≠ .parenOpen)).tail.countP Operator.isBinary := by
  induction waiting with
  | nil => rfl
  | cons op waiting ih =>
    by_cases hop : op = .parenOpen
    · subst hop
      rw [List.takeWhile_cons_of_neg (by simp), List.dropWhile_cons_of_neg (by simp),
        List.countP_nil, List.tail_cons, Nat.zero_add, List.countP_cons_of_neg (by decide)]
    · rw [List.takeWhile_cons_of_pos (by simp [hop]), List.dropWhile_cons_of_pos (by simp [hop]),
        List.countP_cons, List.countP_cons, ih]
      omega

theorem length_group_le (waiting : List Operator) :
    (waiting.takeWhile (· ≠ .parenOpen)).length +
      (waiting.dropWhile (· ≠ .parenOpen)).tail.length ≤ waiting.length := by
  have hsum := congrArg List.length
    (List.takeWhile_append_dropWhile (p := fun op : Operator => op ≠ .parenOpen) (l := waiting))
  rw [List.length_append] at hsum
  rw [List.length_tail]
  omega

theorem closeGroup_eq_ok (h : y.closeGroup = .ok (ops, y')) :
    y.last = .operand ∧ ops = y.waiting.takeWhile (· ≠ .parenOpen) ∧
      y' = ⟨(y.waiting.dropWhile (· ≠ .parenOpen)).tail, .operand⟩ := by
  unfold closeGroup at h
  split at h
  · rename_i hlast
    cases h
    exact ⟨hlast, rfl, by rw [hlast]⟩
  · cases h

/-! ## Operators -/

theorem ne_parenOpen_of_yields {w op : Operator} (h : yields w op = true) : w ≠ .parenOpen := by
  rintro rfl
  simp [yields] at h

theorem reading_eq_ok {op op' : Operator} (hop : op ∈ Operator.spelled)
    (h : y.reading op = .ok op') : op'.Operates ∧
      (y.last = .operand ∧ op'.isUnary = false ∨ y.last ≠ .operand ∧ op'.isUnary = true) := by
  have hoperates := Operator.operates_of_mem_spelled hop
  unfold reading at h
  split at h
  · rename_i hlast
    split at h
    · cases h
    · rename_i hnot
      cases h
      refine ⟨hoperates, Or.inl ⟨hlast, ?_⟩⟩
      revert hop hnot
      cases op <;> decide
  · rename_i hlast
    split at h
    · rename_i hunary
      cases h
      refine ⟨?_, Or.inr ⟨hlast, ?_⟩⟩ <;> cases op <;> cases hunary
      all_goals first | rfl | exact ⟨nofun, nofun⟩
    · cases h

theorem operator_eq_ok {op : Operator} (hop : op ∈ Operator.spelled)
    (h : y.operator op = .ok (ops, y')) : ∃ op' : Operator, op'.Operates ∧
      ops = y.waiting.takeWhile (yields · op') ∧
      y' = ⟨op' :: y.waiting.dropWhile (yields · op'), .operator⟩ ∧
      (y.last = .operand ∧ op'.isUnary = false ∨ y.last ≠ .operand ∧ op'.isUnary = true) := by
  obtain ⟨op', hop', h⟩ := Except.bind_eq_ok.1 h
  obtain ⟨hoperates, hlast⟩ := reading_eq_ok hop hop'
  cases h
  exact ⟨op', hoperates, rfl, rfl, hlast⟩

/-! ## Words -/

theorem mem_of_mem_group {op : Operator} {waiting : List Operator}
    (h : op ∈ (waiting.dropWhile (· ≠ .parenOpen)).tail) : op ∈ waiting :=
  (List.dropWhile_suffix _).subset (List.mem_of_mem_tail h)

theorem Fits.clean (hy : y.Fits n) (h : y.Leads tokens y') : Clean tokens := by
  cases h with
  | operand q hlast => exact fun op hop => by simp at hop
  | openGroup hlast => exact fun op hop => by cases hop
  | closeGroup h =>
    obtain ⟨-, rfl, -⟩ := closeGroup_eq_ok h
    refine clean_operators fun op hop => ?_
    have hne : op ≠ .parenOpen := by simpa using List.mem_takeWhile_imp hop
    exact hy.operates_of_mem ((List.takeWhile_prefix _).subset hop) hne
  | operator hop h =>
    obtain ⟨op', -, rfl, -⟩ := operator_eq_ok hop h
    refine clean_operators fun op hop => ?_
    have hyields : yields op op' = true := List.mem_takeWhile_imp (p := (yields · op')) hop
    have hne := ne_parenOpen_of_yields hyields
    exact hy.operates_of_mem ((List.takeWhile_prefix _).subset hop) hne

/-- **A word leads from a yard that fits the stack to a yard that fits the stack behind it.** -/
theorem fits_of_leads (hy : y.Fits n) (h : y.Leads tokens y') :
    ∃ m, height tokens n = some m ∧ y'.Fits m := by
  have hclean := hy.clean h
  have hn := hy.height
  cases h with
  | operand q hlast =>
    rw [if_neg hlast, Nat.add_zero] at hn
    exact ⟨n + 1, rfl, by rw [hn]; rfl, nofun, hy.closed⟩
  | openGroup hlast =>
    rw [if_neg hlast, Nat.add_zero] at hn
    refine ⟨n, rfl, ?_, nofun, ?_⟩
    · rw [hn, openGroup, List.countP_cons_of_neg (by decide)]
      rfl
    · rw [openGroup, List.mem_cons]
      exact fun h => h.elim nofun hy.closed
  | @closeGroup ops y' h =>
    obtain ⟨hlast, rfl, rfl⟩ := closeGroup_eq_ok h
    rw [if_pos hlast, countP_group, Nat.add_assoc] at hn
    have hops : ∀ op ∈ y.waiting.takeWhile (· ≠ .parenOpen), op.Operates :=
      fun op hop => hclean op (List.mem_map_of_mem hop)
    refine ⟨_, hn ▸ height_operators hops _, rfl, nofun, fun hmem => ?_⟩
    exact hy.closed (mem_of_mem_group hmem)
  | @operator op ops y' hop h =>
    obtain ⟨op', hoperates, rfl, rfl, hlast⟩ := operator_eq_ok hop h
    have hclosed : .parenClose ∉ op' :: y.waiting.dropWhile (yields · op') := by
      rw [List.mem_cons]
      exact fun h => h.elim (fun heq => hoperates.2 heq.symm) fun hmem =>
        hy.closed ((List.dropWhile_suffix _).subset hmem)
    rcases hlast with ⟨hlast, hbinary⟩ | ⟨hlast, hunary⟩
    · -- the left operand of the operator is what the completed ones leave
      have hops : ∀ w ∈ y.waiting.takeWhile (yields · op'), w.Operates :=
        fun w hw => hclean w (List.mem_map_of_mem hw)
      rw [if_pos hlast, ← List.takeWhile_append_dropWhile (p := (yields · op')) (l := y.waiting),
        List.countP_append, Nat.add_assoc] at hn
      refine ⟨_, hn ▸ height_operators hops _, ?_, nofun, hclosed⟩
      rw [List.countP_cons_of_pos (by rw [hoperates.isBinary, hbinary]; rfl)]
      rfl
    · -- a unary operator completes nothing
      have hyields : (yields · op') = fun _ => false := funext (yields_unary hunary)
      rw [if_neg hlast, Nat.add_zero] at hn
      refine ⟨n, ?_, ?_, nofun, hclosed⟩
      · rw [hyields]
        cases y.waiting <;> rfl
      · rw [hyields, List.countP_cons_of_neg (by rw [hoperates.isBinary, hunary]; decide), hn]
        cases y.waiting <;> rfl

theorem length_of_leads (h : y.Leads tokens y') :
    tokens.length + y'.waiting.length ≤ y.waiting.length + 1 := by
  cases h with
  | operand q hlast => exact Nat.le_of_eq (Nat.add_comm _ _)
  | openGroup hlast => exact Nat.le_of_eq (Nat.zero_add _)
  | closeGroup h =>
    obtain ⟨-, rfl, rfl⟩ := closeGroup_eq_ok h
    rw [List.length_map]
    exact Nat.le_succ_of_le (length_group_le _)
  | operator hop h =>
    obtain ⟨op', -, rfl, rfl, -⟩ := operator_eq_ok hop h
    have hsum := congrArg List.length
      (List.takeWhile_append_dropWhile (p := (yields · op')) (l := y.waiting))
    rw [List.length_append] at hsum
    rw [List.length_map, List.length_cons]
    omega

/-! ## The end of an expression -/

theorem Fits.clean_drain (hy : y.Fits n) : Clean (y.drain.map .operator) := by
  refine clean_operators fun op hop => ?_
  obtain ⟨hmem, hne⟩ := List.mem_filter.1 hop
  exact hy.operates_of_mem hmem (by simpa using hne)

theorem length_drain_le (y : Yard) : y.drain.length ≤ y.waiting.length :=
  List.length_filter_le _ _

/-- **At the end of a complete expression one operand is left**, or there was none. -/
theorem height_drain (hy : y.Fits n) (h : y.isIncomplete = false) :
    n = 0 ∧ y.drain = [] ∨ height (y.drain.map .operator) n = some 1 := by
  have hn := hy.height
  simp only [isIncomplete, Bool.or_eq_false_iff, decide_eq_false_iff_not, Nat.not_lt,
    Nat.le_zero] at h
  obtain ⟨hlast, hdepth⟩ := h
  have hopen : .parenOpen ∉ y.waiting := List.count_eq_zero.1 hdepth
  have hdrain : y.drain = y.waiting := by
    refine List.filter_eq_self.2 fun op hop => ?_
    simpa using fun heq : op = .parenOpen => hopen (heq ▸ hop)
  rw [hdrain]
  match hcase : y.last with
  | .operator => exact absurd hcase hlast
  | .none =>
    have hidle := hy.idle hcase
    rw [hidle, hcase] at hn
    exact Or.inl ⟨hn, hidle⟩
  | .operand =>
    have hops : ∀ op ∈ y.waiting, op.Operates := fun op hop =>
      hy.operates_of_mem hop fun heq => hopen (heq ▸ hop)
    rw [if_pos hcase] at hn
    exact Or.inr (hn ▸ height_operators hops 0)

end QuantityCalc.Yard
