import QuantityCalc.Proofs.Expression.Operator
import QuantityCalc.Proofs.Expression.Words
import QuantityCalc.Proofs.Unit.Registration

/-!
# Expressions as trees

`Tree` is the structure of an expression without names, `Tree.postorder` its postfix stream and
`Tree.eval` its value, from the bottom up and from left to right. `Writes room rank e ws` says that
the words `ws` write the tree `e` with at least the parentheses that the ranks of the operators ask
for, where `room` further parentheses may be open at a time and a binary operator of a rank below
`rank` needs parentheses.

The yard turns words that write a tree into its postfix stream (`Writes.reads`), and the stream has
the value of the tree (`run_postorder`). So the text of the words is read as the tree
(`outcome_of_writes`).
-/

namespace QuantityCalc

namespace Expression

variable {s : Session}

/-- The structure of an expression. -/
inductive Tree (s : Session) where
  | operand (o : Operand s)
  | unary (op : Operator) (isUnary : op.isUnary = true) (e : Tree s)
  | binary (op : Operator) (isBinary : op.isBinary = true) (l r : Tree s)

namespace Tree

/-- The postfix stream of a tree. -/
def postorder : Tree s → List Token
  | operand o => [.operand o.quantity]
  | unary op _ e => e.postorder ++ [.operator op]
  | binary op _ l r => l.postorder ++ r.postorder ++ [.operator op]

/-- The value of a tree. Of two operands the left one is evaluated first. -/
def eval : Tree s → Except Error Quantity
  | operand o => .ok o.quantity
  | unary op _ e => do return op.unary (← e.eval)
  | binary op _ l r => do
    let p ← l.eval
    let q ← r.eval
    op.binary p q

/-- Whatever operator is in the stream of a tree, it has one operand or two. -/
theorem isUnary_or_isBinary_of_mem_postorder {op : Operator} {e : Tree s}
    (h : .operator op ∈ e.postorder) : op.isUnary = true ∨ op.isBinary = true := by
  induction e with
  | operand o => simp [postorder] at h
  | unary op' hop e ih =>
    simp only [postorder, List.mem_append, List.mem_singleton, Token.operator.injEq] at h
    rcases h with h | rfl
    · exact ih h
    · exact Or.inl hop
  | binary op' hop l r ihl ihr =>
    simp only [postorder, List.mem_append, List.mem_singleton, Token.operator.injEq] at h
    rcases h with (h | h) | rfl
    · exact ihl h
    · exact ihr h
    · exact Or.inr hop

end Tree

/-! ## Evaluation -/

/-- A stream of correct items underflows by a breach. -/
theorem underflow_map_ok (stack : Postfix.Stack) (items : List Token) :
    Postfix.underflow stack (items.map .ok) = .internal .underflow := by
  induction items with
  | nil => rfl
  | cons _ _ ih => exact ih

/-- A stream may be run in two parts, with the stack in between. -/
theorem run_append (items items' : List Token) (stack : Postfix.Stack) :
    Postfix.run ((items ++ items').map .ok) stack =
      (Postfix.run (items.map .ok) stack).bind (Postfix.run (items'.map .ok)) := by
  induction items generalizing stack with
  | nil => rfl
  | cons item items ih =>
    cases item with
    | operand q => exact ih (q :: stack)
    | operator op =>
      -- an operator without its operands ends both runs, with the same error
      have hunderflow (stack) := underflow_map_ok stack (items ++ items')
      have hunderflow' (stack) := underflow_map_ok stack items
      simp only [List.cons_append, List.map_cons, Postfix.run]
      split
      · split
        · exact ih _
        · rw [hunderflow, hunderflow']; rfl
      · split
        · split
          · exact ih _
          · rfl
        · rw [hunderflow, hunderflow']; rfl

/-- The evaluation of a stream may take its items in parts, and so may the collection of them. -/
theorem isGradual_run : IsGradual Postfix.run := ⟨fun _ => rfl, run_append⟩

theorem isGradual_append : IsGradual fun (items before : List Postfix.Item) =>
    (.ok (before ++ items) : Except Error (List Postfix.Item)) :=
  ⟨fun _ => by simp, fun _ _ _ => by simp [Except.bind]⟩

/-- **The postfix stream of a tree has its value**, on any stack. -/
theorem run_postorder (e : Tree s) (stack : Postfix.Stack) :
    Postfix.run (e.postorder.map .ok) stack = e.eval.map (· :: stack) := by
  induction e generalizing stack with
  | operand o => rfl
  | unary op hop e ih =>
    rw [Tree.postorder, run_append, ih, Tree.eval]
    match e.eval with
    | .error x => rfl
    | .ok q =>
      simp only [Except.map, Except.bind, List.map_cons, List.map_nil, Postfix.run, hop, if_true]
      rfl
  | binary op hop l r ihl ihr =>
    rw [Tree.postorder, run_append, run_append, ihl, Tree.eval]
    match l.eval with
    | .error x => rfl
    | .ok p =>
      simp only [Except.map, Except.bind, ihr, bind]
      match r.eval with
      | .error x => rfl
      | .ok q =>
        simp only [List.map_cons, List.map_nil, Postfix.run, Operator.isUnary_of_isBinary hop]
        cases op.binary p q <;> rfl

/-! ## Writing a tree -/

/-- The words that write a tree. -/
inductive Writes : (room rank : Nat) → Tree s → List (Word s) → Prop where
  | operand {room rank : Nat} (o : Operand s) : Writes room rank (.operand o) [.operand o]
  | unary {room rank : Nat} {op : Operator} {e : Tree s} {ws : List (Word s)}
      (hop : op.isUnary = true) (he : Writes room op.rank e ws) :
      Writes room rank (.unary op hop e)
        (.operator op.behindOperand (Operator.behindOperand_mem_spelled hop) :: ws)
  | binary {room rank : Nat} {op : Operator} {l r : Tree s} {ws ws' : List (Word s)}
      (hop : op.isBinary = true) (hrank : rank ≤ op.rank) (hl : Writes room op.rank l ws)
      (hr : Writes room (op.rank + 1) r ws') :
      Writes room rank (.binary op hop l r)
        (ws ++ .operator op (Operator.mem_spelled_of_isBinary hop) :: ws')
  | group {room rank : Nat} {e : Tree s} {ws : List (Word s)} (he : Writes room 0 e ws) :
      Writes (room + 1) rank e (.parenOpen :: ws ++ [.parenClose])

/-- The operators that wait are not complete when a binary operator of at least a rank follows. -/
def Blocks (waiting : List Operator) (rank : Nat) : Prop :=
  ∀ op, op.isBinary = true → rank ≤ op.rank → ∀ w ∈ waiting.head?, Yard.yields w op = false

/-- No operator is completed in front of one that the waiting ones do not yield to. -/
theorem Blocks.takeWhile_eq_nil {waiting : List Operator} {rank : Nat} {op : Operator}
    (h : Blocks waiting rank) (hop : op.isBinary = true) (hrank : rank ≤ op.rank) :
    waiting.takeWhile (Yard.yields · op) = [] := by
  cases waiting with
  | nil => rfl
  | cons w waiting => exact List.takeWhile_cons_of_neg (by simp [h op hop hrank w rfl])

/-- The operators that a tree leaves waiting are complete when any operator of its rank follows. -/
structure Leaves (rank : Nat) (ops : List Operator) : Prop where
  ne_parenOpen : ∀ op ∈ ops, op ≠ .parenOpen
  rank_le : ∀ op ∈ ops, min rank 6 ≤ op.rank

/-- All operators go on to wait in front of one that they do not yield to. -/
theorem Blocks.dropWhile_eq_self {waiting : List Operator} {rank : Nat} {op : Operator}
    (h : Blocks waiting rank) (hop : op.isBinary = true) (hrank : rank ≤ op.rank) :
    waiting.dropWhile (Yard.yields · op) = waiting := by
  cases waiting with
  | nil => rfl
  | cons w waiting => exact List.dropWhile_cons_of_neg (by simp [h op hop hrank w rfl])

/-- A unary operator that waits yields to no binary operator of its rank or a higher one. -/
theorem blocks_unary {op : Operator} (hop : op.isUnary = true) (waiting : List Operator) :
    Blocks (op :: waiting) op.rank := by
  intro op' hop' hrank
  have := Operator.rank_lt_of_isBinary hop'
  rw [Operator.rank_of_isUnary hop] at hrank
  omega

/-- A binary operator that waits yields to no binary operator of a higher rank. -/
theorem blocks_binary (op : Operator) (waiting : List Operator) :
    Blocks (op :: waiting) (op.rank + 1) := by
  rintro op' - hrank _ ⟨⟩
  have hlt : ¬op'.rank < op.rank := by omega
  have hne : op.rank ≠ op'.rank := by omega
  simp [Yard.yields, hlt, hne]

/-- An open parenthesis yields to no operator. -/
theorem blocks_parenOpen (rank : Nat) (waiting : List Operator) :
    Blocks (.parenOpen :: waiting) rank := by
  rintro op - - _ ⟨⟩
  rfl

theorem leaves_nil (rank : Nat) : Leaves rank [] := ⟨by simp, by simp⟩

/-- An operator waits below those that its right side leaves. -/
theorem Leaves.concat {rank rank' : Nat} {ops : List Operator} {op : Operator}
    (h : Leaves rank' ops) (hpos : 0 < op.rank) (hrank' : min rank 6 ≤ rank')
    (hop : min rank 6 ≤ op.rank) : Leaves rank (ops ++ [op]) := by
  refine ⟨fun w hw => ?_, fun w hw => ?_⟩ <;> rcases List.mem_append.1 hw with hw | hw
  · exact h.ne_parenOpen w hw
  · exact List.mem_singleton.1 hw ▸ Operator.ne_parenOpen_of_rank_pos hpos
  · have := h.rank_le w hw
    omega
  · exact List.mem_singleton.1 hw ▸ hop

/-- The operators that a tree leaves yield to a binary operator of its rank. -/
theorem Leaves.yields {ops : List Operator} {rank : Nat} {op : Operator} (h : Leaves rank ops)
    (hop : op.isBinary = true) (hrank : op.rank ≤ rank) :
    ∀ w ∈ ops, Yard.yields w op = true := by
  intro w hw
  have hle := h.rank_le w hw
  have hlt := Operator.rank_lt_of_isBinary hop
  have hor : op.rank < w.rank ∨ w.rank = op.rank := by omega
  simp [Yard.yields, h.ne_parenOpen w hw, hor, Operator.isUnary_of_isBinary hop]

/-- A unary operator waits for its operand and completes none. -/
theorem operator_unary {op : Operator} (hop : op.isUnary = true) (waiting : List Operator)
    {last : LastWord} (hlast : last ≠ .operand) :
    Yard.operator ⟨waiting, last⟩ op.behindOperand = .ok ([], ⟨op :: waiting, .operator⟩) := by
  have hyields : (Yard.yields · op) = fun _ => false := funext (Yard.yields_unary hop)
  simp only [Yard.operator, Yard.reading, hlast, if_false, Operator.asUnary?_behindOperand hop,
    hyields, bind, Except.bind]
  cases waiting <;> rfl

/-- A binary operator completes the operators that its left side leaves, and waits above the others.
-/
theorem operator_binary {op : Operator} (hop : op.isBinary = true) {ops waiting : List Operator}
    (hops : Leaves op.rank ops) {rank : Nat} (hblocks : Blocks waiting rank)
    (hrank : rank ≤ op.rank) :
    Yard.operator ⟨ops ++ waiting, .operand⟩ op = .ok (ops, ⟨op :: waiting, .operator⟩) := by
  have hyields := hops.yields hop (Nat.le_refl _)
  simp only [Yard.operator, Yard.reading, if_true, Operator.ne_not_of_isBinary hop, if_false,
    bind, Except.bind, List.takeWhile_append_of_pos hyields, List.dropWhile_append_of_pos hyields,
    hblocks.takeWhile_eq_nil hop hrank, hblocks.dropWhile_eq_self hop hrank, List.append_nil]
  rfl

/-- The end of a group completes the operators down to its parenthesis. -/
theorem closeGroup_leaves {rank : Nat} {ops : List Operator} (hops : Leaves rank ops)
    (waiting : List Operator) :
    Yard.closeGroup ⟨ops ++ .parenOpen :: waiting, .operand⟩ = .ok (ops, ⟨waiting, .operand⟩) := by
  have hne : ∀ op ∈ ops, decide (op ≠ .parenOpen) = true := fun op hop =>
    decide_eq_true (hops.ne_parenOpen op hop)
  simp only [Yard.closeGroup, if_true, List.takeWhile_append_of_pos hne,
    List.dropWhile_append_of_pos hne]
  rw [List.takeWhile_cons_of_neg (by simp), List.dropWhile_cons_of_neg (by simp), List.append_nil,
    List.tail_cons]

/-- **Words that write a tree are read as its postfix stream.** The end of the stream may still wait
in the yard, above the operators that waited before. -/
theorem Writes.reads {room rank : Nat} {e : Tree s} {ws : List (Word s)}
    (h : Writes room rank e ws) :
    ∀ (waiting : List Operator) (last : LastWord), last ≠ .operand → Blocks waiting rank →
      waiting.count .parenOpen + room ≤ s.options.maxNesting →
      ∃ out ops, Reads ⟨waiting, last⟩ ws out ⟨ops ++ waiting, .operand⟩ ∧
        out ++ ops.map .operator = e.postorder ∧ Leaves rank ops := by
  induction h with
  | operand o =>
    intro waiting last hlast _ _
    exact ⟨_, [], .single (.operand hlast), List.append_nil _, leaves_nil _⟩
  | @unary room rank op e ws hop he ih =>
    intro waiting last hlast _ hroom
    have hrank := Operator.rank_of_isUnary hop
    have hpos : 0 < op.rank := by omega
    have hcount : (op :: waiting).count .parenOpen = waiting.count .parenOpen :=
      List.count_cons_of_ne (Operator.ne_parenOpen_of_rank_pos hpos)
    obtain ⟨out, ops, hreads, hout, hops⟩ :=
      ih _ .operator (by simp) (blocks_unary hop waiting) (by rw [hcount]; exact hroom)
    refine ⟨[] ++ out, ops ++ [op], ?_, ?_, hops.concat hpos (by omega) (by omega)⟩
    · rw [List.append_assoc]
      exact .cons (.operator _ (operator_unary hop waiting hlast)) hreads
    · rw [List.map_append, List.nil_append, ← List.append_assoc, hout]
      rfl
  | @binary room rank op l r ws ws' hop hrank hl hr ihl ihr =>
    intro waiting last hlast hblocks hroom
    have hpos := Operator.rank_pos_of_isBinary hop
    have hcount : (op :: waiting).count .parenOpen = waiting.count .parenOpen :=
      List.count_cons_of_ne (Operator.ne_parenOpen_of_rank_pos hpos)
    obtain ⟨out, ops, hreads, hout, hops⟩ :=
      ihl _ _ hlast (fun op' hop' hle => hblocks op' hop' (Nat.le_trans hrank hle)) hroom
    obtain ⟨out', ops', hreads', hout', hops'⟩ :=
      ihr _ .operator (by simp) (blocks_binary op waiting) (by rw [hcount]; exact hroom)
    -- what the left side leaves is completed by the operator, what the right side leaves is not
    have hadmits := operator_binary hop hops hblocks hrank
    refine ⟨out ++ (ops.map .operator ++ out'), ops' ++ [op], ?_, ?_,
      hops'.concat hpos (by omega) (by omega)⟩
    · rw [List.append_assoc]
      exact hreads.append (.cons (.operator _ hadmits) hreads')
    · rw [List.map_append, Tree.postorder, ← hout, ← hout']
      simp only [List.append_assoc]
      rfl
  | @group room rank e ws he ih =>
    intro waiting last hlast _ hroom
    have hcount : (Operator.parenOpen :: waiting).count .parenOpen =
        waiting.count .parenOpen + 1 := List.count_cons_self
    obtain ⟨out, ops, hreads, hout, hops⟩ :=
      ih _ .operator (by simp) (blocks_parenOpen 0 waiting) (by omega)
    have hopen : (⟨waiting, last⟩ : Yard).depth < s.options.maxNesting := by
      simp only [Yard.depth]
      omega
    have hclose : 0 < (⟨ops ++ .parenOpen :: waiting, .operand⟩ : Yard).depth := by
      simp only [Yard.depth, List.count_append]
      omega
    refine ⟨[] ++ (out ++ ops.map .operator), [], ?_, by simpa using hout, leaves_nil _⟩
    exact .cons (.parenOpen hlast hopen)
      (hreads.append (.single (.parenClose hclose (closeGroup_leaves hops waiting))))

/-! ## Trees as texts -/

namespace Tree

/-- The words that write a tree with no more parentheses than its operators ask for. -/
def words : (rank : Nat) → Tree s → List (Word s)
  | _, operand o => [.operand o]
  | _, unary op hop e =>
    .operator op.behindOperand (Operator.behindOperand_mem_spelled hop) :: e.words op.rank
  | rank, binary op hop l r =>
    let ws := l.words op.rank ++
      .operator op (Operator.mem_spelled_of_isBinary hop) :: r.words (op.rank + 1)
    if rank ≤ op.rank then ws else .parenOpen :: ws ++ [.parenClose]

/-- The number of parentheses that are open at a time in these words. -/
def nesting : (rank : Nat) → Tree s → Nat
  | _, operand _ => 0
  | _, unary op _ e => e.nesting op.rank
  | rank, binary op _ l r =>
    let n := max (l.nesting op.rank) (r.nesting (op.rank + 1))
    if rank ≤ op.rank then n else n + 1

/-- **Every tree is written by some words**, if there is room for its parentheses. -/
theorem writes_words (e : Tree s) {room rank : Nat} (h : e.nesting rank ≤ room) :
    Writes room rank e (e.words rank) := by
  induction e generalizing room rank with
  | operand o => exact .operand o
  | unary op hop e ih => exact .unary hop (ih h)
  | binary op hop l r ihl ihr =>
    simp only [nesting] at h
    simp only [words]
    split at h
    · rename_i hrank
      rw [if_pos hrank]
      exact .binary hop hrank (ihl (by omega)) (ihr (by omega))
    · rename_i hrank
      rw [if_neg hrank]
      obtain ⟨room, rfl⟩ : ∃ n, room = n + 1 := Nat.exists_eq_succ_of_ne_zero (by omega)
      exact .group (.binary hop (Nat.zero_le _) (ihl (by omega)) (ihr (by omega)))

end Tree

variable {e : Tree s} {ws : List (Word s)}

/-- **The words of a tree feed its postfix stream** to the consumer, all at once or in parts. -/
theorem feed_of_writes (context : ReadingContext) {σ : Type}
    {consume : List Postfix.Item → σ → Except Error σ} (hconsume : IsGradual consume)
    (h : Writes s.options.maxNesting 0 e ws) (state : σ) :
    ∃ d, (feed context consume state {} (.start (Word.spaced ws))).outcome s =
        .ok (⟨consume (e.postorder.map .ok) state, d⟩, s) ∧
      ∀ state', consume (e.postorder.map .ok) state = .ok state' → d.rest = [] := by
  obtain ⟨out, ops, hreads, hout, hops⟩ :=
    h.reads [] .none (by simp) (by simp [Blocks]) (by simp)
  have hparen : Operator.parenOpen ∉ ops := fun hmem => hops.ne_parenOpen _ hmem rfl
  have hcomplete : (⟨ops ++ [], .operand⟩ : Yard).isIncomplete = false := by
    simp [Yard.isIncomplete, Yard.depth, hparen]
  have hdrain : (⟨ops ++ [], .operand⟩ : Yard).drain = ops := by
    simpa [Yard.drain] using hops.ne_parenOpen
  have hfeed := feed_of_reads context hconsume hreads hcomplete state
    (c := .start (Word.spaced ws)) (Word.trimStart_spaced ws)
  rwa [hdrain, hout] at hfeed

/-- **Words that write a tree are read as the tree**: the stream of their text is the postfix stream
of the tree, in which no parenthesis stands, and the value of their text is the value of the tree. A
text that has a value is read to its end. -/
theorem outcome_of_writes (budget : Nat) (h : Writes s.options.maxNesting 0 e ws) :
    (∃ c, (Session.readTokens budget (Word.spaced ws)).outcome s =
        .ok ((e.postorder.map .ok, c), s) ∧ c.rest = []) ∧
      (∀ op, .operator op ∈ e.postorder → op ≠ .parenOpen ∧ op ≠ .parenClose) ∧
      ∃ rest, (Session.readExpression budget (Word.spaced ws)).outcome s =
          .ok (⟨e.eval, rest⟩, s) ∧
        ∀ q, e.eval = .ok q → rest = [] := by
  let context : ReadingContext :=
    ⟨activation budget, arguments (activation budget) s.options.maxNesting, false⟩
  have hcontext : (topLevel (activation budget)).outcome s = .ok (context, s) := rfl
  refine ⟨?_, fun op hop => ?_, ?_⟩
  · obtain ⟨d, hfeed, hrest⟩ := feed_of_writes context isGradual_append h []
    refine ⟨d, ?_, hrest _ rfl⟩
    simp [Session.readTokens, hcontext, hfeed, Except.toOption]
  · rcases Tree.isUnary_or_isBinary_of_mem_postorder hop with hop | hop <;>
      constructor <;> rintro rfl <;> cases hop
  · obtain ⟨d, hfeed, hrest⟩ := feed_of_writes context isGradual_run h []
    rw [run_postorder] at hfeed hrest
    refine ⟨d.rest, ?_, fun q hq => hrest [q] (by rw [hq]; rfl)⟩
    simp only [Session.readExpression, value, Run.outcome_bind, Run.outcome_pure, hcontext, hfeed]
    cases e.eval <;> rfl

/-- The metre is one of the units of the international system. -/
theorem lookup?_metre : UnitSystem.international.lookup? "m" =
    some ⟨"m", .base .length, 1, 0, .named⟩ := by
  have hid : UnitSystem.international.idOf? "m" = some UnitSystem.metre := by
    simp [UnitSystem.idOf?_international, UnitSystem.baseUnits, List.findIdx?_cons,
      UnitSystem.metre]
  simp only [UnitSystem.lookup?, hid]
  exact UnitSystem.unit?_metre

/-- A digit in a new session. -/
def Tree.digit (d : Char) (hd : d.isDigit = true) (suffix? : Option (Suffix (.start {} .unknown))) :
    Tree (Session.start {} .unknown) :=
  .operand (.ofDigits [d] suffix? (by simp) (List.forall_mem_singleton.2 hd))

/-- The expression `2 m * ( 3 + - 4 )` in a new session. -/
def sample : Tree (Session.start {} .unknown) :=
  .binary .mul rfl
    (.digit '2' rfl (some (.ofSymbol ['m'] _ (by simp) (List.forall_mem_singleton.2 rfl)
      lookup?_metre)))
    (.binary .add rfl (.digit '3' rfl none) (.unary .minus rfl (.digit '4' rfl none)))

theorem outcome_of_writes_sample :
    Writes 32 0 sample (sample.words 0) ∧
      Word.spaced (sample.words 0) = "2 m * ( 3 + - 4 )".toList ∧
      ∃ rest, (Session.readExpression 0 "2 m * ( 3 + - 4 )".toList).outcome
        (Session.start {} .unknown) = .ok (⟨sample.eval, rest⟩, Session.start {} .unknown) := by
  have hwrites : Writes 32 0 sample (sample.words 0) := sample.writes_words (by decide)
  have hspaced : Word.spaced (sample.words 0) = "2 m * ( 3 + - 4 )".toList := rfl
  obtain ⟨-, -, rest, hrest, -⟩ := outcome_of_writes 0 hwrites
  exact ⟨hwrites, hspaced, rest, hspaced ▸ hrest⟩

end Expression

end QuantityCalc
