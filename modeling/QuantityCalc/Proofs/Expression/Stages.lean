import QuantityCalc.Proofs.Expression.Streams
import QuantityCalc.Proofs.Expression.Tree
import QuantityCalc.Proofs.Expression.Typed
import QuantityCalc.Proofs.Expression.Variables

/-!
# Stages of reading sums

A `Stage` is where the reading and the evaluation of an expression are: the yard, the stack and the
place in the text. `Stage.At` is the invariant of expressions of plain numbers, sums, parentheses
and calls of `abs`. It says which text is still to be read, and that each sum that waits in the
yard has its left side on the stack. Each word leads from a stage with the invariant to another one,
or it exceeds the limit of nesting (`Stage.overruns_or_opens`, `Stage.passes_call`).

A level of an expression is the whole text or one argument of a call. The parentheses that are open
in a level are counted from its beginning. If a level is read to its end, it has a value
(`Stage.outcome_converted`).
-/

namespace QuantityCalc

open Text

/-! ## Sums of plain numbers -/

/-- The sum of two plain numbers is a plain number. -/
theorem Operator.binary_add_plain {p q : Quantity} (hp : p.unit = .plain) (hq : q.unit = .plain) :
    ∃ sum : Quantity, Operator.add.binary p q = .ok sum ∧ sum.unit = .plain := by
  have hconvertible : p.unit.Convertible q.unit := by rw [hp, hq]; rfl
  have halign : p.align q = .ok (p.unit.ofCoherent q.coherentValue) := if_pos hconvertible
  refine ⟨{ p with value := p.value + p.unit.ofCoherent q.coherentValue }, ?_, hp⟩
  rw [binary, Quantity.add, halign]
  rfl

/-- Sums of plain numbers have plain numbers as their values. -/
theorem Postfix.run_sums (n : Nat) {stack : Stack} (hplain : ∀ q ∈ stack, q.unit = .plain)
    (hlt : n < stack.length) :
    ∃ stack', run (Expression.itemsOf (List.replicate n .add)) stack = .ok stack' ∧
      (∀ q ∈ stack', q.unit = .plain) ∧ stack'.length + n = stack.length := by
  induction n generalizing stack with
  | zero => exact ⟨stack, rfl, hplain, rfl⟩
  | succ n ih =>
    match stack with
    | q :: p :: stack =>
      simp only [List.forall_mem_cons, List.length_cons] at hplain hlt
      obtain ⟨hq, hp, hstack⟩ := hplain
      obtain ⟨sum, hsum, hunit⟩ := Operator.binary_add_plain hp hq
      have hnext : ∀ q ∈ sum :: stack, q.unit = .plain := List.forall_mem_cons.2 ⟨hunit, hstack⟩
      obtain ⟨stack', hrun, hplain', hlength⟩ := ih hnext (by rw [List.length_cons]; omega)
      refine ⟨stack', ?_, hplain', ?_⟩
      · have hbinary : Operator.add.isUnary = false := rfl
        simp only [List.replicate_succ, Expression.itemsOf, List.map_cons, run, hbinary, hsum]
        exact hrun
      · rw [List.length_cons] at hlength
        simp only [List.length_cons]
        omega

namespace Expression

variable {s : Session} {context : ReadingContext} {c d : Cursor} {r t u : Text}

/-! ## What may follow an expression -/

/-- What may follow an expression: a sum goes on, a parenthesis is closed, or the text is over. -/
def Follows (r : Text) : Prop := ∀ c ∈ (trimStart r).head?, c = '+' ∨ c = ')'

theorem follows_nil : Follows [] := nofun

theorem follows_cons {x : Char} (hx : x = '+' ∨ x = ')') (t : Text) : Follows (x :: t) := by
  have hblank : isBlank x = false := by rcases hx with rfl | rfl <;> decide
  rw [Follows, trimStart, List.dropWhile_cons_of_neg (by simp [hblank])]
  rintro _ ⟨⟩
  exact hx

/-- What follows an operand does not go on with a unit behind it. -/
theorem Follows.isSymbolChar (hr : Follows r) :
    ∀ c ∈ (trimStart r).head?, UnitExpr.isSymbolChar c = false := by
  intro c hc
  rcases hr c hc with rfl | rfl <;> decide

/-- No number goes on in what follows an expression. -/
theorem Follows.stops (hr : Follows r) : Literal.Stops r := by
  let Other (c : Char) : Prop :=
    isHexDigit c = false ∧ c ∉ ['x', 'X', 'h', 'H', '.'] ∧ c ≠ ','
  have hfront : ∀ c ∈ r.head?, Other c := by
    intro c hc
    by_cases hblank : isBlank c = true
    · exact of_isBlank (P := Other) (by decide +kernel) hblank
    · have htrim : trimStart r = r := by
        refine trimStart_of_head? fun b hb => ?_
        cases Option.mem_unique hb hc
        simpa using hblank
      rcases hr c (by rw [htrim]; exact hc) with rfl | rfl <;> decide
  refine ⟨fun c hc => ⟨(hfront c hc).1, (hfront c hc).2.1⟩, ?_⟩
  rintro u rfl
  exact absurd rfl (hfront ',' rfl).2.2

theorem trimStart_close (t : Text) : trimStart (')' :: t) = ')' :: t :=
  List.dropWhile_cons_of_neg (by decide)

/-- Where a level of an expression ends: at the end of the text, or, among arguments, where their
list is closed. -/
def Ends (nested : Bool) (r : Text) : Prop :=
  trimStart r = [] ∨ nested = true ∧ ∃ u, trimStart r = ')' :: u

/-! ## Stages -/

/-- The base of a level: the operators that its words leave alone, which are none or start with an
open parenthesis. -/
def IsBase (base : List Operator) : Prop := ∀ op ∈ base.head?, op = .parenOpen

/-- The base inside of a parenthesis that is opened where some sums wait above a base. -/
def inside (n : Nat) (base : List Operator) : List Operator :=
  .parenOpen :: (List.replicate n .add ++ base)

variable {base base' : List Operator}

theorem isBase_nil : IsBase [] := nofun

theorem isBase_inside (n : Nat) (base : List Operator) : IsBase (inside n base) := by
  rintro _ ⟨⟩
  rfl

/-- No operator of a level takes an operand from below its base. -/
theorem IsBase.blocks (h : IsBase base) (rank : Nat) : Blocks base rank := by
  intro op _ _ w hw
  rw [h w hw]
  rfl

/-- The sums that wait inside of a parenthesis wait above those of its base. -/
theorem count_add_inside (n : Nat) (base : List Operator) :
    (inside n base).count .add = n + base.count .add := by
  simp [inside, List.count_append]

/-- One more parenthesis is open inside of a parenthesis. -/
theorem count_parenOpen_inside (n : Nat) (base : List Operator) :
    (inside n base).count .parenOpen = base.count .parenOpen + 1 := by
  simp [inside, List.count_append, List.count_replicate]

theorem leaves_sums (n : Nat) : Leaves Operator.add.rank (List.replicate n .add) := by
  constructor <;> intro op hop <;> rw [List.eq_of_mem_replicate hop] <;> decide

/-- Where the reading and the evaluation of an expression are. -/
structure Stage where
  /-- The operators that wait, and the last word. -/
  yard : Yard
  /-- The operands. -/
  stack : Postfix.Stack
  /-- The place in the text. -/
  place : Cursor

namespace Stage

variable {g g' : Stage} {y y' : Yard} {stack stack' : Postfix.Stack} {items : List Postfix.Item}
  {filled : Bool}

/-- The beginning of a level. -/
def start (t : Text) : Stage := ⟨{}, [], .start t⟩

/-- What reading and evaluating the rest of a level leads to. -/
def outcome (context : ReadingContext) (s : Session) (g : Stage) :
    Except Halt (Fed Postfix.Stack × Session) :=
  (feed context Postfix.run g.stack g.yard g.place).outcome s

/-- A step with further words goes on from the stage behind them. -/
theorem outcome_of_more
    (hstep : (step context y).outcome c s = .ok ((.ok (.more items y'), d), s))
    (hrun : Postfix.run items stack = .ok stack') (hlt : d.rest.length < c.rest.length) :
    outcome context s ⟨y, stack, c⟩ = outcome context s ⟨y', stack', d⟩ := by
  unfold outcome
  rw [feed]
  simp only [Run.outcome_bind, Run.outcome_reading, hstep, hrun, hlt, if_true]

/-- A step to the end of a level leads to the value on the stack. -/
theorem outcome_of_last
    (hstep : (step context y).outcome c s = .ok ((.ok (.last items), d), s)) :
    outcome context s ⟨y, stack, c⟩ = .ok (⟨Postfix.run items stack, d⟩, s) := by
  unfold outcome
  rw [feed]
  simp only [Run.outcome_bind, Run.outcome_reading, hstep, Run.outcome_pure]

/-- The limit of nesting is exceeded in the rest of a level. -/
def Overruns (context : ReadingContext) (s : Session) (g : Stage) : Prop :=
  ∃ d, g.outcome context s = .ok (⟨.error (.nesting s.options.maxNesting), d⟩, s)

/-- An error of the limit is the outcome of the level. -/
theorem overruns_of_step (hstep : (step context g.yard).outcome g.place s =
      .ok ((.error (.nesting s.options.maxNesting), d), s)) : g.Overruns context s := by
  refine ⟨d, ?_⟩
  unfold outcome
  rw [feed]
  simp only [Run.outcome_bind, Run.outcome_reading, hstep, Run.outcome_pure, Postfix.run]

/-- A stage in front of the text `t`, where the last word is an operand or not. Some sums wait above
the base of the level. Each sum that waits has its left side on the stack, and so does an operand
that is the last word. -/
structure At (g : Stage) (filled : Bool) (base : List Operator) (t : Text) : Prop where
  last : g.yard.last = .operand ↔ filled = true
  plain : ∀ q ∈ g.stack, q.unit = .plain
  waiting : ∃ n, g.yard.waiting = List.replicate n .add ++ base ∧
    g.stack.length = n + base.count .add + filled.toNat
  rest : trimStart g.place.rest = trimStart t

/-- Reading on from a stage leads to a stage in front of the text `t`. -/
def Reaches (context : ReadingContext) (s : Session) (g : Stage) (filled : Bool)
    (base : List Operator) (t : Text) : Prop :=
  ∃ g' : Stage, g.outcome context s = g'.outcome context s ∧ g'.At filled base t

theorem start_at (t : Text) : (start t).At false [] t :=
  ⟨by simp [start], List.forall_mem_nil _, ⟨0, rfl, rfl⟩, rfl⟩

namespace At

theorem of_trimStart (h : g.At filled base t) (ht : trimStart t = trimStart u) :
    g.At filled base u :=
  ⟨h.last, h.plain, h.waiting, h.rest.trans ht⟩

theorem trimStart_rest {x : Char} (h : g.At filled base (x :: u)) (hx : isBlank x = false) :
    trimStart g.place.rest = x :: u :=
  h.rest.trans (List.dropWhile_cons_of_neg (by simp [hx]))

/-- The depth of the yard is the number of parentheses that are open in the level. -/
theorem depth (h : g.At filled base t) : g.yard.depth = base.count .parenOpen := by
  obtain ⟨n, hwaiting, -⟩ := h.waiting
  have hsums : (List.replicate n Operator.add).count .parenOpen = 0 :=
    List.count_eq_zero.2 fun hmem => by cases List.eq_of_mem_replicate hmem
  rw [Yard.depth, hwaiting, List.count_append, hsums, Nat.zero_add]

/-- An operand may follow where none is the last word. -/
theorem checkOperand (h : g.At false base t) : g.yard.checkOperand = .ok () := by
  have hlast : g.yard.last ≠ .operand := fun hlast => by cases h.last.1 hlast
  exact if_neg hlast

/-- Behind an operand the sums that wait have all their operands. -/
theorem complete (h : g.At true base t) :
    ∃ n stack', g.yard = ⟨List.replicate n .add ++ base, .operand⟩ ∧
      Postfix.run (itemsOf (List.replicate n .add)) g.stack = .ok stack' ∧
      (∀ q ∈ stack', q.unit = .plain) ∧ stack'.length = base.count .add + 1 := by
  obtain ⟨n, hwaiting, hlength⟩ := h.waiting
  rw [Bool.toNat_true] at hlength
  obtain ⟨stack', hrun, hplain, hlength'⟩ := Postfix.run_sums n h.plain (by omega)
  refine ⟨n, stack', ?_, hrun, hplain, by omega⟩
  rw [← hwaiting, ← h.last.2 rfl]

end At

/-! ## Words -/

/-- A plus takes both operands of the sum that waits in front of it, and waits itself. -/
theorem reaches_plus (h : g.At true base ('+' :: u)) (hbase : IsBase base) :
    g.Reaches context s false base u := by
  obtain ⟨n, stack', hyard, hrun, hplain, hlength⟩ := h.complete
  have hrest := h.trimStart_rest (by decide)
  have hscan : Lexeme.scan? s.options.decimalComma ('+' :: u) = some (.operator .add, u) :=
    Lexeme.scan?_of_alone (by decide) (by decide) (by intro op; cases op <;> decide) _ u
  have hstep : (step context g.yard).outcome g.place s =
      .ok ((.ok (.more (itemsOf (List.replicate n .add)) ⟨.add :: base, .operator⟩),
        g.place.skipBlanks.moveTo u), s) := by
    have hoperator : Yard.operator ⟨List.replicate n .add ++ base, .operand⟩ .add =
        .ok (List.replicate n .add, ⟨.add :: base, .operator⟩) :=
      operator_binary rfl (leaves_sums n) (hbase.blocks 0) (Nat.zero_le _)
    rw [step_eq_word context hrest (endsAt_cons (by decide) u) (by simp) hscan, hyard]
    simp only [word, hoperator, Except.mapError_ok, Reading.outcome_bind, Reading.outcome_check,
      Reading.outcome_pure]
  refine ⟨_, outcome_of_more hstep hrun (isBehind_of_trimStart hrest).length_lt, ?_⟩
  refine ⟨by simp, hplain, ⟨1, rfl, ?_⟩, rfl⟩
  rw [hlength, Bool.toNat_false]
  omega

/-- A parenthesis is closed. The sums inside of it are made, and its value is an operand. -/
theorem reaches_close {n : Nat} (h : g.At true (inside n base) (')' :: u)) :
    g.Reaches context s true base u := by
  obtain ⟨k, stack', hyard, hrun, hplain, hlength⟩ := h.complete
  have hrest := h.trimStart_rest (by decide)
  have hopen : ¬((')' :: u).head? = some ')' ∧ g.yard.depth = 0) := by
    rw [h.depth, count_parenOpen_inside]
    simp
  have hstep : (step context g.yard).outcome g.place s =
      .ok ((.ok (.more (itemsOf (List.replicate k .add)) ⟨List.replicate n .add ++ base, .operand⟩),
        g.place.skipBlanks.moveTo u), s) := by
    have hclose : Yard.closeGroup ⟨List.replicate k .add ++ inside n base, .operand⟩ =
        .ok (List.replicate k .add, ⟨List.replicate n .add ++ base, .operand⟩) :=
      closeGroup_leaves (leaves_sums k) _
    rw [step_eq_word context hrest (endsAt_cons (by decide) u) hopen rfl, hyard]
    simp only [word, hclose, Except.mapError_ok, Reading.outcome_bind, Reading.outcome_check,
      Reading.outcome_pure]
  refine ⟨_, outcome_of_more hstep hrun (isBehind_of_trimStart hrest).length_lt, ?_⟩
  refine ⟨by simp, hplain, ⟨n, rfl, ?_⟩, rfl⟩
  rw [hlength, count_add_inside, Bool.toNat_true]

/-- **A parenthesis is opened if fewer are open than the limit says.** -/
theorem overruns_or_opens (h : g.At false base ('(' :: u)) :
    s.options.maxNesting ≤ base.count .parenOpen ∧ g.Overruns context s ∨
      base.count .parenOpen < s.options.maxNesting ∧
        ∃ n, g.Reaches context s false (inside n base) u := by
  obtain ⟨n, hwaiting, hlength⟩ := h.waiting
  have hrest := h.trimStart_rest (by decide)
  have hstep := step_eq_word (s := s) context (y := g.yard) hrest (endsAt_cons (by decide) u)
    (by simp) rfl
  simp only [word, h.checkOperand, Except.mapError_ok, Reading.outcome_bind, Reading.outcome_check,
    Reading.outcome_session, h.depth] at hstep
  rcases Nat.lt_or_ge (base.count .parenOpen) s.options.maxNesting with hlt | hge
  · rw [if_neg (Nat.not_le_of_lt hlt)] at hstep
    refine .inr ⟨hlt, n, _, outcome_of_more hstep rfl (isBehind_of_trimStart hrest).length_lt, ?_⟩
    refine ⟨by simp [Yard.openGroup], h.plain, ⟨0, ?_, ?_⟩, rfl⟩
    · rw [Yard.openGroup, hwaiting]
      rfl
    · rw [hlength, count_add_inside, Nat.zero_add]
  · rw [if_pos hge] at hstep
    exact .inl ⟨hge, overruns_of_step hstep⟩

/-- An operand with a plain number as its value is read. -/
theorem reaches_operand (h : g.At false base t) {q : Quantity} (hq : q.unit = .plain)
    (hstep : (step context g.yard).outcome g.place s =
      .ok ((.ok (.more [.ok (.operand q)] g.yard.operand), d), s))
    (hlt : d.rest.length < g.place.rest.length) : g.Reaches context s true base d.rest := by
  obtain ⟨n, hwaiting, hlength⟩ := h.waiting
  refine ⟨_, outcome_of_more hstep rfl hlt, ?_⟩
  refine ⟨by simp [Yard.operand], List.forall_mem_cons.2 ⟨hq, h.plain⟩, ⟨n, hwaiting, ?_⟩, rfl⟩
  rw [List.length_cons, hlength, Bool.toNat_false, Bool.toNat_true]

/-- A number without a unit is read as an operand. -/
theorem reaches_number {l : Literal} {value : Float} (h : g.At false base (t ++ r))
    (hr : Follows r) (hscan : Lexeme.scan? s.options.decimalComma t = some (.number l, []))
    (hvalue : l.value? = some value) : g.Reaches context s true base r := by
  have hfront := Lexeme.scan?_number_front hscan hr.stops
  match t with
  | x :: t =>
    have hdigit := Lexeme.isDigit_of_scan?_eq_number hscan
    have hrest : trimStart g.place.rest = x :: (t ++ r) :=
      h.trimStart_rest (isBlank_of_isDigit hdigit)
    have hends : x ∉ ['/', ',', '[', ']', ';', '{', '}'] := by
      have hnot : ∀ y ∈ ['/', ',', '[', ']', ';', '{', '}'], y.isDigit = false :=
        forall_mem_of_all (by decide)
      intro hmem
      rw [hnot x hmem] at hdigit
      cases hdigit
    have hclose : ¬((x :: (t ++ r)).head? = some ')' ∧ g.yard.depth = 0) := by
      rintro ⟨hhead, -⟩
      cases hhead
      exact absurd hdigit (by decide)
    have hunit := UnitSystem.scan?_eq_none (s := s.system) hr.isSymbolChar
    have hlt := (isBehind_of_trimStart hrest).length_lt
    rw [List.length_append] at hlt
    refine reaches_operand h (q := .plain value) (d := g.place.skipBlanks.moveTo r) rfl ?_
      (Nat.lt_of_le_of_lt (Nat.le_add_left _ _) hlt)
    rw [step_eq_word context hrest (endsAt_cons hends _) hclose hfront]
    simp only [word, hvalue, operand, h.checkOperand, Except.mapError_ok, Reading.number,
      Reading.outcome_bind, Reading.outcome_check, Reading.outcome_get, Reading.outcome_session,
      Cursor.rest_moveTo, hunit, Reading.outcome_pure]

/-! ## Levels -/

/-- Reading on from a stage, an expression is read up to the text `r`, or the limit of nesting is
exceeded in it. -/
def Passes (context : ReadingContext) (s : Session) (g : Stage) (exceeds : Prop)
    (base : List Operator) (r : Text) : Prop :=
  exceeds ∧ g.Overruns context s ∨ ¬exceeds ∧ g.Reaches context s true base r

variable {exceeds exceeds' : Prop}

namespace Passes

theorem of_iff (h : g.Passes context s exceeds base r) (hiff : exceeds ↔ exceeds') :
    g.Passes context s exceeds' base r := by
  rwa [Passes, ← hiff]

theorem of_reaches (h : g.Reaches context s true base r) : g.Passes context s False base r :=
  .inr ⟨id, h⟩

theorem of_outcome (h : g'.Passes context s exceeds base r)
    (hg : g.outcome context s = g'.outcome context s) : g.Passes context s exceeds base r := by
  rwa [Passes, Overruns, Reaches, hg]

/-- What exceeds the limit in the rest does so in the whole, unless the part in front of it did. -/
theorem andThen (h : g.Passes context s exceeds base t)
    (hrest : ∀ g' : Stage, g'.At true base t → g'.Passes context s exceeds' base' r) :
    g.Passes context s (exceeds ∨ exceeds') base' r := by
  rcases h with ⟨hexceeds, houtcome⟩ | ⟨hexceeds, g', houtcome, hg'⟩
  · exact .inl ⟨.inl hexceeds, houtcome⟩
  · refine ((hrest g' hg').of_outcome houtcome).of_iff ?_
    rw [or_iff_right hexceeds]

end Passes

/-! ## Calls -/

variable {blanks : Text} {parsed : Parsed (List Quantity)}

/-- What the arguments of a call are, if their list is not empty. -/
theorem outcome_arguments (ht : (trimStart c.rest).head? ≠ some ')')
    (hread : (context.arguments (trimStart c.rest)).outcome s = .ok (parsed, s)) :
    (∀ limit, parsed.value = .error (.nesting limit) → ∃ d,
      (Reading.arguments context).outcome c s = .ok ((.error (.nesting limit), d), s)) ∧
    ∀ args r, parsed = ⟨.ok args, ')' :: r⟩ → ∃ d, d.rest = r ∧
      (Reading.arguments context).outcome c s = .ok ((.ok args, d), s) := by
  have hnone : c.skipBlanks.eat? [')'] = none := by
    match hc : trimStart c.rest with
    | [] => simp [Cursor.eat?, hc, dropLead?]
    | x :: u =>
      rw [hc] at ht
      exact Cursor.eat?_other (y := x) hc fun heq => ht (congrArg some heq.symm)
  unfold Reading.arguments
  simp only [Reading.outcome_bind, Reading.outcome_modify, Reading.outcome_get, hnone,
    Cursor.rest_skipBlanks, Reading.outcome_liftM, hread, Reading.outcome_set,
    Reading.outcome_liftExcept]
  constructor
  · intro limit hvalue
    rw [hvalue]
    exact ⟨_, rfl⟩
  · rintro args r rfl
    have hclose : (c.skipBlanks.moveTo (')' :: r)).skipBlanks.rest = ')' :: r := trimStart_close r
    simp only [Except.mapError_ok, Cursor.eat?_self hclose]
    exact ⟨_, rfl, rfl⟩

/-- A name that no scope binds is the built-in function of this name. -/
theorem resolve_abs (habs : s.find? "abs" = none) (t : Text) :
    s.resolve "abs" t = ⟨"abs", "abs", some ⟨.function, .builtins⟩, t⟩ := by
  have hmeaning : s.meaning? "abs" = some ⟨.function, .builtins⟩ := by
    rw [Session.meaning?, habs]
    rfl
  rw [Session.resolve, hmeaning, Session.follow_of_not_container]
  rintro m ⟨⟩
  rfl

/-- The name `abs` in front of a parenthesis is read as a call. -/
theorem outcome_named_abs (context : ReadingContext) (habs : s.find? "abs" = none)
    (hblanks : ∀ x ∈ blanks, isBlank x = true) (hc : c.rest = blanks ++ '(' :: t) (position : Nat) :
    ∃ d, d.rest = t ∧ (Reading.named context "abs" position).outcome c s =
      (do
        let args ← Reading.arguments context
        Reading.act (Session.call context.run .builtins "abs" args) :
        Reading Quantity).outcome d s := by
  have hrest : (c.moveTo c.rest).skipBlanks.rest = '(' :: t := by
    rw [Cursor.rest_skipBlanks, Cursor.rest_moveTo, hc, trimStart,
      List.dropWhile_append_of_pos hblanks]
    exact List.dropWhile_cons_of_neg (by decide)
  refine ⟨(c.moveTo c.rest).skipBlanks.moveTo t, rfl, ?_⟩
  simp only [Reading.named, Reading.outcome_bind, Reading.outcome_get, Reading.outcome_session,
    resolve_abs habs c.rest, Reading.outcome_set, Cursor.eat?_self hrest]

/-- **A call of `abs` is read as its argument list is.** -/
theorem passes_call (habs : s.find? "abs" = none) (hblanks : ∀ x ∈ blanks, isBlank x = true)
    (h : g.At false base ("abs".toList ++ (blanks ++ '(' :: t)))
    (ht : (trimStart t).head? ≠ some ')') (hlt : r.length < t.length)
    (hlist : ∃ parsed, (context.arguments (trimStart t)).outcome s = .ok (parsed, s) ∧
      (exceeds ∧ parsed.value = .error (.nesting s.options.maxNesting) ∨
        ¬exceeds ∧ ∃ q, q.unit = .plain ∧ parsed = ⟨.ok [q], ')' :: r⟩)) :
    g.Passes context s exceeds base r := by
  have hrest : trimStart g.place.rest = "abs".toList ++ (blanks ++ '(' :: t) :=
    h.trimStart_rest (x := 'a') (by decide)
  have hname : Name.scan? ("abs".toList ++ (blanks ++ '(' :: t)) =
      some ("abs".toList, blanks ++ '(' :: t) := by
    refine Name.scan?_front (by decide) fun c hc => ?_
    match blanks with
    | [] =>
      cases hc
      decide
    | b :: blanks =>
      cases hc
      exact Name.isChar_of_isBlank (hblanks _ List.mem_cons_self)
  have hstep := step_eq_word (s := s) context (y := g.yard) hrest (endsAt_cons (by decide) _)
    (by simp) (Lexeme.scan?_eq_name_iff.2 hname)
  obtain ⟨d, rfl, hnamed⟩ := outcome_named_abs context habs hblanks (t := t)
    (Cursor.rest_moveTo g.place.skipBlanks _) g.place.skipBlanks.position
  simp only [word, operand, h.checkOperand, Except.mapError_ok, String.ofList_toList,
    Reading.outcome_bind, Reading.outcome_check, hnamed] at hstep
  obtain ⟨parsed, hread, hparsed⟩ := hlist
  obtain ⟨herror, hvalue⟩ := outcome_arguments ht hread
  rcases hparsed with ⟨hexceeds, hparsed⟩ | ⟨hexceeds, q, hq, hparsed⟩
  · obtain ⟨d', harguments⟩ := herror _ hparsed
    rw [harguments] at hstep
    exact .inl ⟨hexceeds, overruns_of_step hstep⟩
  · obtain ⟨d', rfl, harguments⟩ := hvalue [q] r hparsed
    rw [harguments] at hstep
    refine .inr ⟨hexceeds, reaches_operand h (q := { q with value := q.value.abs }) hq hstep ?_⟩
    have hle := (trimStart_suffix g.place.rest).length_le
    rw [hrest] at hle
    simp only [List.length_append, List.length_cons] at hle
    omega

/-! ## Ends of levels -/

/-- In front of the end of a level, the sums that wait are made at last. -/
theorem step_of_ends (h : g.At true [] r) (hr : Ends context.nested r) :
    (step context g.yard).outcome g.place s =
      .ok ((.ok (.last (itemsOf g.yard.drain)), g.place.skipBlanks), s) := by
  have hdepth : g.yard.depth = 0 := h.depth
  have hcomplete : g.yard.isIncomplete = false := by
    rw [Yard.isIncomplete, hdepth, h.last.2 rfl]
    rfl
  rcases hr with hnil | ⟨hnested, u, hclose⟩
  · have hstep := step_of_end (s := s) (y := g.yard) context (h.rest.trans hnil)
    simpa [hcomplete] using hstep
  · have hends : endsAt (')' :: u) = false := endsAt_cons (by decide) u
    simp only [step_eq, Reading.outcome_bind, Reading.outcome_modify, Reading.outcome_get,
      Cursor.rest_skipBlanks, h.rest.trans hclose, hends, hdepth, hnested, finish, hcomplete]
    rfl

/-- At the end of a level its value is on the stack. -/
theorem outcome_of_ends (h : g.At true [] r) (hr : Ends context.nested r) :
    ∃ q, q.unit = .plain ∧ g.outcome context s = .ok (⟨.ok [q], g.place.skipBlanks⟩, s) := by
  have hstep := step_of_ends (s := s) h hr
  obtain ⟨n, stack', hyard, hrun, hplain, hlength⟩ := h.complete
  have hdrain : g.yard.drain = List.replicate n .add := by
    rw [hyard, Yard.drain, List.append_nil, List.filter_eq_self]
    intro op hop
    rw [List.eq_of_mem_replicate hop]
    rfl
  obtain ⟨q, rfl⟩ := List.length_eq_one_iff.1 hlength
  refine ⟨q, hplain q List.mem_cons_self, ?_⟩
  rw [hdrain] at hstep
  exact (outcome_of_last hstep).trans (by rw [hrun])

/-- **A level of an expression has a value, or the limit of nesting is exceeded in it.** -/
theorem outcome_converted (h : (start t).Passes context s exceeds [] r)
    (hr : Ends context.nested r) :
    (exceeds ∧ ∃ rest, (converted context t).outcome s =
      .ok (⟨.error (.nesting s.options.maxNesting), rest⟩, s)) ∨
    ¬exceeds ∧ ∃ q, q.unit = .plain ∧
      (converted context t).outcome s = .ok (⟨.ok q, trimStart r⟩, s) := by
  refine h.imp ?_ ?_
  · rintro ⟨hexceeds, d, hfeed⟩
    have hfeed : (feed context Postfix.run [] {} (.start t)).outcome s = _ := hfeed
    refine ⟨hexceeds, d.rest, ?_⟩
    simp only [converted, value, Run.outcome_bind, hfeed, Run.outcome_pure]
    rfl
  · rintro ⟨hexceeds, g', hfeed, hg'⟩
    obtain ⟨q, hq, hlast⟩ := outcome_of_ends (s := s) hg' hr
    have hrest : g'.place.skipBlanks.rest = trimStart r := hg'.rest
    have htarget (u : Text) : trimStart r ≠ '[' :: u := by
      rcases hr with hnil | ⟨-, v, hclose⟩
      · rw [hnil]
        rintro ⟨⟩
      · rw [hclose]
        rintro ⟨⟩
    have hrelabel : q.relabel s.system = q := by
      rw [Quantity.relabel, hq]
      rfl
    have hvalue := outcome_value (hfeed.trans hlast)
    rw [hrest] at hvalue
    refine ⟨hexceeds, q, hq, ?_⟩
    rw [converted, Run.outcome_bind, hvalue]
    simp only [Run.outcome_bind, Run.outcome_get, trimStart_trimStart, Run.outcome_pure, hrelabel]

/-- The one argument in a list is a level of its own. -/
theorem outcome_list (h : (start t).Passes context s exceeds [] (')' :: r))
    (hnested : context.nested = true) :
    ∃ parsed, (list context t).outcome s = .ok (parsed, s) ∧
      (exceeds ∧ parsed.value = .error (.nesting s.options.maxNesting) ∨
        ¬exceeds ∧ ∃ q, q.unit = .plain ∧ parsed = ⟨.ok [q], ')' :: r⟩) := by
  rcases outcome_converted h (.inr ⟨hnested, r, trimStart_close r⟩) with
    ⟨hexceeds, rest, hread⟩ | ⟨hexceeds, q, hq, hread⟩
  · exact ⟨_, outcome_listFrom_error hread [] 0, .inl ⟨hexceeds, rfl⟩⟩
  · rw [trimStart_close] at hread
    have hend (next : Text) : trimStart (')' :: r) ≠ ',' :: next := by
      rw [trimStart_close]
      rintro ⟨⟩
    exact ⟨_, outcome_listFrom_last hread hend [] 0, .inr ⟨hexceeds, q, hq, rfl⟩⟩

end Stage

end Expression

end QuantityCalc
