import QuantityCalc.Proofs.Expression.Streams
import QuantityCalc.Proofs.Trailer.Repeats
import QuantityCalc.Proofs.Unit.Front

/-!
# Expressions in front of an ending

What is read of an expression does not depend on an ending behind it: operands, rounds, values and
the target unit all leave the ending where it is (`Expression.repeats_converted`). So do lists, but
a list goes on in an ending that is a comma with further expressions (`Expression.repeats_list`). A
call is not disturbed by this, since a list of arguments that is not closed is no operand.
-/

namespace QuantityCalc

open Text

variable {r t t' : Text} {s : Session} {c c' : Cursor}

/-! ## Texts behind the white space -/

theorem Text.Trails.scanUnit? (hr : IsEnding r) (h : Trails r t t') (s : UnitSystem) :
    s.scan? (trimStart t') = (s.scan? (trimStart t)).map fun result =>
      result.map fun (u, rest) => (u, rest ++ r) := by
  rcases h.cases with ⟨hnil, h⟩ | ⟨x, u, ht, ht'⟩
  · have hmarks : ∀ x ∈ endingMarks, UnitExpr.isSymbolChar x = false :=
      forall_endingMarks (by decide) (by decide) (by decide)
    have hnone : s.scan? ([] : Text) = none := UnitSystem.scan?_eq_none (by simp)
    have hmark : s.scan? (trimStart r) = none :=
      UnitSystem.scan?_eq_none fun x hx => hmarks x (hr.mem_endingMarks x hx)
    rw [h, hnil, hmark, hnone]
    rfl
  · rw [ht, ht']
    exact UnitSystem.scan?_append hr.isBreak s (x :: u)

/-- A character that does not start the text behind is eaten in both texts or in neither. -/
theorem Cursor.eat?_of_trails (h : Trails r c.rest c'.rest) {x : Char}
    (hx : (trimStart r).head? ≠ some x) :
    (c.skipBlanks.eat? [x] = none ∧ c'.skipBlanks.eat? [x] = none) ∨
      ∃ d d', c.skipBlanks.eat? [x] = some d ∧ c'.skipBlanks.eat? [x] = some d' ∧
        d'.rest = d.rest ++ r := by
  simp only [eat?, rest_skipBlanks, Option.map_eq_none_iff, Option.map_eq_some_iff]
  rcases h.front hx with ⟨u, ht, ht'⟩ | ⟨hne, hne'⟩
  · right
    rw [ht, ht']
    exact ⟨_, _, ⟨u, by simp [dropLead?], rfl⟩, ⟨u ++ r, by simp [dropLead?], rfl⟩, rfl⟩
  · left
    constructor
    · refine Option.eq_none_iff_forall_ne_some.2 fun u hu => hne u ?_
      exact dropLead?_eq_some_iff.1 hu
    · refine Option.eq_none_iff_forall_ne_some.2 fun u hu => hne' u ?_
      exact dropLead?_eq_some_iff.1 hu

/-- What reads the arguments of calls leaves an ending where it is, if it does not get there. -/
def ReadingContext.Repeats (r : Text) (context : ReadingContext) : Prop :=
  ∀ (s : Session) {t t' : Text}, Trails r t t' →
    Run.Repeats (fun rest => trimStart rest ≠ []) r s (context.arguments t) (context.arguments t')

/-! ## Operands -/

namespace Reading

variable {context : ReadingContext}

theorem repeats_number (hr : IsEnding r) (h : Trails r c.rest c'.rest) (value : Float) :
    Reading.Repeats r s c c' (number value) (number value) := by
  refine .get_bind (.session_bind ?_)
  have hscan := h.scanUnit? hr s.system
  cases hunit : s.system.scan? (trimStart c.rest) with
  | none =>
    rw [hunit] at hscan
    rw [hscan]
    exact .pure h _
  | some result =>
    rw [hunit] at hscan
    rw [hscan]
    cases result with
    | error e => exact .set_bind (.throw _ _)
    | ok x =>
      obtain ⟨unit, rest⟩ := x
      exact .set_bind (.pure (.append rest r) _)

theorem repeats_arguments (hr : IsEnding r) (hcontext : context.Repeats r)
    (h : Trails r c.rest c'.rest) :
    Reading.Repeats r s c c' (arguments context) (arguments context) := by
  refine .modify_bind (.get_bind ?_)
  rcases Cursor.eat?_of_trails h (hr.head?_ne (x := ')') (by decide)) with
    ⟨heat, heat'⟩ | ⟨d, d', heat, heat', hd⟩
  · rw [heat, heat']
    refine .parsed_bind (hcontext s h.trimmed) (fun args rest rest' t hrest => ?_)
      (fun args rest t n hblank _ _ _ hm => ?_) fun e rest t n _ _ _ hm => by cases hm
    swap
    · -- nothing is left, so the list of arguments is not closed
      simp only [Reading.outcome_bind, Reading.outcome_set, Reading.outcome_liftExcept,
        Except.mapError_ok, Reading.outcome_modify, Reading.outcome_get, Cursor.eat?,
        Cursor.rest_skipBlanks, Cursor.rest_moveTo, not_not.1 hblank] at hm
      cases hm
    refine .set_bind (.bind (.liftExcept hrest.trails fun _ hargs => hargs) ?_)
    intro args d d' u hd
    refine .modify_bind (.get_bind ?_)
    rcases Cursor.eat?_of_trails hd (hr.head?_ne (x := ')') (by decide)) with
      ⟨heat, -⟩ | ⟨e, e', heat, heat', he⟩
    · rw [heat]
      simp only
      split
      · exact .throw _ _
      · exact .malformed _ _ _
    · rw [heat, heat']
      exact .set_bind (.pure (.of_eq he) _)
  · rw [heat, heat']
    exact .set_bind (.pure (.of_eq hd) _)

theorem repeats_scriptCall (h : c'.rest = c.rest ++ r) (path : String) :
    Reading.Repeats r s c c' (scriptCall context path) (scriptCall context path) := by
  refine .get_bind ?_
  cases heat : c.eat? ['(', ')'] with
  | none => exact .throw _ _
  | some d =>
    obtain ⟨rest, hdrop, rfl⟩ := Option.map_eq_some_iff.1 heat
    have heat' : c'.eat? ['(', ')'] = some (c'.moveTo (rest ++ r)) := by
      rw [Cursor.eat?, h, Text.dropLead?_append hdrop]
      rfl
    rw [heat']
    simp only
    split
    · exact .throw _ _
    · refine .bind (.act (.of_eq h) _) fun value? d d' t hd => ?_
      cases value? with
      | none => exact .throw _ _
      | some value => exact .set_bind (.pure (.append rest r) _)

theorem repeats_named (hr : IsEnding r) (hcontext : context.Repeats r) (h : c'.rest = c.rest ++ r)
    (name : String) (position position' : Nat) :
    Reading.Repeats r s c c' (named context name position) (named context name position') := by
  refine .get_bind (.session_bind ?_)
  rw [h, Session.resolve_append hr.isBreak]
  refine .set_bind ?_
  simp only
  have hrest : (c'.moveTo ((s.resolve name c.rest).rest ++ r)).rest =
      (c.moveTo (s.resolve name c.rest).rest).rest ++ r := rfl
  cases hmeaning : (s.resolve name c.rest).meaning? with
  | none => exact repeats_scriptCall hrest _
  | some m =>
    simp only
    cases m.kind with
    | var =>
      refine .session_bind ?_
      cases s.valueAt? m.home (s.resolve name c.rest).last with
      | none => exact .throw _ _
      | some value => exact .pure (.of_eq hrest) _
    | unit =>
      refine .session_bind ?_
      cases s.unit? m.home (s.resolve name c.rest).last with
      | none => exact .throw _ _
      | some unit => exact .pure (.of_eq hrest) _
    | function =>
      refine .get_bind ?_
      rcases Cursor.eat?_of_trails (.of_eq hrest) (hr.head?_ne (x := '(') (by decide)) with
        ⟨heat, heat'⟩ | ⟨d, d', heat, heat', hd⟩
      · rw [heat]
        exact .malformed _ _ _
      · rw [heat, heat']
        refine .set_bind (.bind (repeats_arguments hr hcontext (.of_eq hd)) ?_)
        intro args e e' t he
        exact .act he _
    | unitSystem => exact .throw _ _
    | space => exact .throw _ _

end Reading

/-! ## Rounds -/

theorem Postfix.run_ne_ok_of_mem {items : List Item} {stack stack' : Stack} {e : Error}
    (h : .error e ∈ items) : run items stack ≠ .ok stack' := by
  intro hrun
  fun_induction run items stack with
  | case1 stack => cases h
  | case2 | case3 | case6 | case8 | case9 => cases hrun
  | case4 q items stack ih => exact ih (by simpa using h) hrun
  | case5 op items hop q stack ih => exact ih (by simpa using h) hrun
  | case7 op items hop q p stack value hvalue ih => exact ih (by simpa using h) hrun

namespace Expression

variable {context : ReadingContext} {y : Yard}

theorem endsAt_append_of_cons (hr : IsEnding r) (x : Char) (u : Text) :
    endsAt (x :: u ++ r) = endsAt (x :: u) := by
  rw [endsAt, isOver_append_of_cons hr.isBreak, endsAt]
  rfl

theorem repeats_operand {position position' : Nat} {read read' : Reading Quantity}
    (hread : Reading.Repeats r s c c' read read') :
    Reading.Repeats r s c c' (operand y position read) (operand y position' read') :=
  .check_bind fun _ => .bind hread fun _ _ _ _ hd => .pure hd _

theorem repeats_word (hr : IsEnding r) (hcontext : context.Repeats r) (h : c'.rest = c.rest ++ r)
    (position position' : Nat) (l : Lexeme) :
    Reading.Repeats r s c c' (word context y position l) (word context y position' l) := by
  cases l with
  | parenOpen =>
    refine .check_bind fun _ => .session_bind ?_
    simp only
    split
    · exact .throw _ _
    · exact .pure (.of_eq h) _
  | parenClose => exact .check_bind fun _ => .pure (.of_eq h) _
  | operator op => exact .check_bind fun _ => .pure (.of_eq h) _
  | number l =>
    simp only [word]
    split
    · exact repeats_operand (Reading.repeats_number hr (.of_eq h) _)
    · exact .throw _ _
  | name name => exact repeats_operand (Reading.repeats_named hr hcontext h _ _ _)
  | mark x => exact .throw _ _

theorem repeats_finish (h : Trails r c.rest c'.rest) {place : Cursor} (place' : Cursor)
    {round : Round} {d : Cursor} {t : Session}
    (hm : (finish y place).outcome c s = .ok ((.ok round, d), t))
    (hround : ∀ items, round = .last items → y.isIncomplete = false) :
    ∃ d', (finish y place').outcome c' s = .ok ((.ok round, d'), t) ∧ Trails r d.rest d'.rest := by
  have hy : y.isIncomplete = false := by
    rw [Bool.eq_false_iff]
    intro hy
    simp only [finish, hy, if_true] at hm
    split at hm
    · cases hm
      rw [hround _ rfl] at hy
      cases hy
    · cases hm
  simp only [finish, hy, Bool.false_eq_true, if_false] at hm ⊢
  cases hm
  exact ⟨c', rfl, h⟩

/-- What a round reads behind the white space: it ends the expression, or it takes a word. -/
theorem outcome_step (y : Yard) (c : Cursor) (s : Session) :
    (step context y).outcome c s =
      if endsAt c.skipBlanks.rest then (finish y c.skipBlanks).outcome c.skipBlanks s
      else if c.skipBlanks.rest.head? = some ')' && y.depth = 0 then
        if context.nested then (finish y c.skipBlanks).outcome c.skipBlanks s
        else .ok ((.error (.malformed c.skipBlanks.position .unbalancedClose), c.skipBlanks), s)
      else
        match Lexeme.scan? s.options.decimalComma c.skipBlanks.rest with
        | some (l, rest) =>
          (word context y c.skipBlanks.position l).outcome (c.skipBlanks.moveTo rest) s
        | none =>
          .ok ((.error (.unexpectedChar c.skipBlanks.position (c.skipBlanks.rest.headD ' ')),
            c.skipBlanks), s) := by
  simp only [step_eq, Reading.outcome_bind, Reading.outcome_modify, Reading.outcome_get,
    Reading.outcome_session, Reading.outcome_ite]
  cases Lexeme.scan? s.options.decimalComma c.skipBlanks.rest <;> rfl

/-- **A round of reading is the same in front of an ending.** -/
theorem repeats_step (hr : IsEnding r) (hcontext : context.Repeats r)
    (h : Trails r c.rest c'.rest) {round : Round} {d : Cursor} {t : Session}
    (hm : (step context y).outcome c s = .ok ((.ok round, d), t))
    (hround : ∀ items, round = .last items → y.isIncomplete = false) :
    ∃ d', (step context y).outcome c' s = .ok ((.ok round, d'), t) ∧
      Trails r d.rest d'.rest := by
  have hskip : Trails r c.skipBlanks.rest c'.skipBlanks.rest := h.trimmed
  rw [outcome_step, Cursor.rest_skipBlanks] at hm
  rw [outcome_step, Cursor.rest_skipBlanks]
  rcases h.cases with ⟨hnil, h⟩ | ⟨x, u, ht, ht'⟩
  · have hends : endsAt [] = true := rfl
    rw [hnil, if_pos hends] at hm
    rw [h, if_pos hr.endsAt_trimStart]
    exact repeats_finish hskip _ hm hround
  · rw [ht] at hm
    rw [ht', ← List.cons_append, endsAt_append_of_cons hr]
    split at hm
    · rename_i hends
      rw [if_pos hends]
      exact repeats_finish hskip _ hm hround
    · rename_i hends
      have hhead : (x :: u ++ r).head? = (x :: u).head? := rfl
      rw [if_neg hends, hhead]
      split at hm
      · rename_i hclose
        rw [if_pos hclose]
        split at hm
        · rename_i hnested
          rw [if_pos hnested]
          exact repeats_finish hskip _ hm hround
        · cases hm
      · rename_i hclose
        rw [if_neg hclose, Lexeme.scan?_append hr.isBreak _ (List.cons_ne_nil x u)]
        cases hscan : Lexeme.scan? s.options.decimalComma (x :: u) with
        | none =>
          rw [hscan] at hm
          cases hm
        | some l =>
          obtain ⟨l, rest⟩ := l
          rw [hscan] at hm
          exact repeats_word hr hcontext rfl _ _ l hm

/-! ## Expressions -/

/-- When an expression ends, the white space in front of the next character has been skipped. -/
theorem rest_of_last (hgenuine : context.Genuine) {items : List Postfix.Item} {d : Cursor}
    {t : Session} (hm : (step context y).outcome c s = .ok ((.ok (.last items), d), t)) :
    d.rest = trimStart c.rest := by
  have hfinish {place e : Cursor}
      (hm : (finish y place).outcome e s = .ok ((.ok (.last items), d), t)) : d = e := by
    simp only [finish, Reading.outcome_ite] at hm
    split at hm
    · split at hm <;> cases hm
      rfl
    · cases hm
      rfl
  rw [outcome_step] at hm
  split at hm
  · rw [hfinish hm, Cursor.rest_skipBlanks]
  · split at hm
    · split at hm
      · rw [hfinish hm, Cursor.rest_skipBlanks]
      · cases hm
    · split at hm
      · rename_i l rest hscan
        -- behind a word the expression goes on
        have hspelled (op : Operator) (hop : l = .operator op) : op ∈ Operator.spelled :=
          Lexeme.mem_spelled_of_scan? (hop ▸ hscan)
        obtain ⟨⟨tokens, y', hround, -⟩, -⟩ := grants_word hgenuine _ hspelled hm
        cases hround
      · cases hm

/-- **Feeding the stream of an expression to the evaluation is the same in front of an ending.** -/
theorem repeats_feed (hr : IsEnding r) (hgenuine : context.Genuine) (hcontext : context.Repeats r)
    {stack stack' : Postfix.Stack} {d : Cursor} {t : Session} (h : Trails r c.rest c'.rest)
    (hm : (feed context Postfix.run stack y c).outcome s = .ok (⟨.ok stack', d⟩, t)) :
    ∃ d', (feed context Postfix.run stack y c').outcome s = .ok (⟨.ok stack', d'⟩, t) ∧
      Remains r d.rest d'.rest := by
  induction hn : c.rest.length using Nat.strongRecOn generalizing stack y c c' s with
  | ind n ih =>
    rw [feed] at hm ⊢
    simp only [Run.outcome_bind, Run.outcome_reading] at hm ⊢
    rcases hout : (step context y).outcome c s with x | ⟨⟨x | round, e⟩, u⟩
    · rw [hout] at hm
      cases hm
    · rw [hout] at hm
      simp only [Run.outcome_pure, Except.ok.injEq, Prod.mk.injEq, Fed.mk.injEq] at hm
      exact absurd hm.1.1 (Postfix.run_ne_ok_of_mem List.mem_cons_self)
    · rw [hout] at hm
      cases round with
      | last items =>
        simp only [Run.outcome_pure, Except.ok.injEq, Prod.mk.injEq, Fed.mk.injEq] at hm
        obtain ⟨⟨hitems, rfl⟩, rfl⟩ := hm
        -- a stream that is cut short has an error at its end, and this one has a value
        have hcomplete : y.isIncomplete = false := by
          obtain ⟨⟨hends, -⟩, -⟩ := grants_step hgenuine y hout
          cases hends with
          | complete hcomplete => exact hcomplete
          | cut position =>
            refine absurd hitems (Postfix.run_ne_ok_of_mem (e := .unterminated position none) ?_)
            exact List.mem_append_right _ List.mem_cons_self
        obtain ⟨e', hout', -⟩ := repeats_step hr hcontext h hout fun _ _ => hcomplete
        refine ⟨e', ?_, ?_⟩
        · simp only [hout', Run.outcome_pure, hitems]
        · rw [rest_of_last hgenuine hout, rest_of_last hgenuine hout']
          exact h.remains
      | more items y' =>
        obtain ⟨⟨-, hlt⟩, -⟩ := grants_step hgenuine y hout
        obtain ⟨e', hout', he⟩ := repeats_step hr hcontext h hout (by simp)
        obtain ⟨⟨-, hlt'⟩, -⟩ := grants_step hgenuine y hout'
        simp only [hout'] at hm ⊢
        cases hitems : Postfix.run items stack with
        | error x =>
          simp only [hitems] at hm
          cases hm
        | ok stack₁ =>
          have hlt := hlt items y' rfl
          simp only [hitems, if_pos hlt, if_pos (hlt' items y' rfl)] at hm ⊢
          exact ih e.rest.length (hn ▸ hlt) he hm rfl

theorem repeats_value (hr : IsEnding r) (hgenuine : context.Genuine) (hcontext : context.Repeats r)
    (h : Trails r t t') :
    Run.Repeats (fun _ => True) r s (value context t) (value context t') := by
  intro q rest u hm _
  obtain ⟨⟨state, place⟩, v, hfeed, hq⟩ := Run.outcome_bind_eq_ok.1 hm
  simp only [Run.outcome_pure, Except.ok.injEq, Prod.mk.injEq, Parsed.mk.injEq] at hq
  obtain ⟨⟨hq, rfl⟩, rfl⟩ := hq
  cases state with
  | error e => cases hq
  | ok stack =>
    have hstart : Trails r (Cursor.start t).rest (Cursor.start t').rest := h
    obtain ⟨place', hfeed', hplace⟩ := repeats_feed hr hgenuine hcontext hstart hfeed
    refine ⟨place'.rest, ?_, hplace⟩
    rw [value, Run.outcome_bind, hfeed']
    simp only [Run.outcome_pure, hq]

/-- **An expression with its target unit is read in front of an ending as without it.** -/
theorem repeats_converted (hr : IsEnding r) (hgenuine : context.Genuine)
    (hcontext : context.Repeats r) (h : Trails r t t') :
    Run.Repeats (fun _ => True) r s (converted context t) (converted context t') := by
  intro q rest u hm _
  obtain ⟨⟨value, rest₁⟩, v, hvalue, hq⟩ := Run.outcome_bind_eq_ok.1 hm
  cases value with
  | error e => cases hq
  | ok p =>
    obtain ⟨rest₁', hvalue', hrest⟩ := repeats_value hr hgenuine hcontext h hvalue trivial
    rw [converted, Run.outcome_bind, hvalue']
    simp only [Run.outcome_bind, Run.outcome_get] at hq ⊢
    rcases hrest.trails.front (hr.head?_ne (x := '[') (by decide)) with
      ⟨inside, ht, ht'⟩ | ⟨hne, hne'⟩
    · rw [ht] at hq
      rw [ht']
      simp only at hq ⊢
      cases hcut : cut? ']' inside with
      | none =>
        rw [hcut] at hq
        cases hq
      | some x =>
        obtain ⟨target, behind⟩ := x
        rw [hcut] at hq
        rw [cut?_append hcut]
        simp only [Run.outcome_pure, Except.ok.injEq, Prod.mk.injEq, Parsed.mk.injEq] at hq ⊢
        obtain ⟨⟨hq, rfl⟩, rfl⟩ := hq
        exact ⟨behind ++ r, ⟨⟨hq, rfl⟩, rfl⟩, .inl rfl⟩
    · split at hq
      · rename_i ht
        exact absurd ht (hne _)
      · cases hq
        exact ⟨rest₁', rfl, hrest⟩

/-- A list ends in front of a text, unless nothing but white space is left and a comma follows. -/
def Closes (r rest : Text) : Prop := trimStart rest = [] → (trimStart r).head? ≠ some ','

theorem closes_of_isTrailer (hr : IsTrailer r) (rest : Text) : Closes r rest :=
  fun _ => hr.head?_ne (by decide)

theorem repeats_listFrom (hr : IsEnding r) (hgenuine : context.Genuine)
    (hcontext : context.Repeats r) (values : List Quantity) (offset offset' : Nat)
    (h : Trails r t t') :
    Run.Repeats (Closes r) r s (listFrom context values offset t)
      (listFrom context values offset' t') := by
  induction hn : t.length using Nat.strongRecOn generalizing s values offset offset' t t' with
  | ind n ih =>
    intro qs rest u hm hcloses
    have hfirst := hm
    rw [listFrom] at hfirst
    obtain ⟨⟨value, rest₁⟩, v, hvalue, -⟩ := Run.outcome_bind_eq_ok.1 hfirst
    cases value with
    | error e =>
      rw [outcome_listFrom_error hvalue] at hm
      cases hm
    | ok p =>
      obtain ⟨rest₁', hvalue', hrest⟩ := repeats_converted hr hgenuine hcontext h hvalue trivial
      -- the list goes on behind a comma that is left, and it ends anywhere else
      by_cases hcomma : ∃ next, trimStart rest₁ = ',' :: next
      · obtain ⟨next, hcomma⟩ := hcomma
        have hcomma' := hrest.trails.eq_cons hcomma
        have hnext := (isBehind_of_trimStart hcomma).trans_suffix
          (grants_converted hgenuine t hvalue).2
        have hnext' := (isBehind_of_trimStart hcomma').trans_suffix
          (grants_converted hgenuine t' hvalue').2
        rw [outcome_listFrom_next hvalue hcomma hnext.length_lt] at hm
        rw [outcome_listFrom_next hvalue' hcomma' hnext'.length_lt]
        exact ih next.length (hn ▸ hnext.length_lt) _ _ _ (.append next r) rfl hm hcloses
      · have hend := not_exists.1 hcomma
        rw [outcome_listFrom_last hvalue hend] at hm
        cases hm
        have hend' : ∀ next, trimStart rest₁' ≠ ',' :: next := by
          intro next hcomma'
          rcases hrest.trails.cases with ⟨hnil, ht'⟩ | ⟨x, behind, ht, ht'⟩
          · refine hcloses hnil ?_
            rw [← ht', hcomma']
            rfl
          · cases ht'.symm.trans hcomma'
            exact hend behind ht
        exact ⟨rest₁', outcome_listFrom_last hvalue' hend' values offset', hrest⟩

/-- **A list of expressions is read in front of an ending as without it**, if it does not go on
there. -/
theorem repeats_list (hr : IsEnding r) (hgenuine : context.Genuine) (hcontext : context.Repeats r)
    (h : Trails r t t') : Run.Repeats (Closes r) r s (list context t) (list context t') :=
  repeats_listFrom hr hgenuine hcontext [] 0 0 h

variable {run : Runner}

theorem repeats_arguments (hr : IsEnding r) (hrun : Runner.Genuine run) (room : Nat)
    (h : Trails r t t') :
    Run.Repeats (Closes r) r s (arguments run room t) (arguments run room t') := by
  induction room generalizing s t t' with
  | zero =>
    intro qs rest u hm
    cases hm
  | succ room ih =>
    refine repeats_list hr ⟨hrun, grants_arguments hrun room⟩ (fun s t t' h => ?_) h
    exact (ih h).mono fun rest hblank hnil => absurd hnil hblank

theorem repeats_context (hr : IsEnding r) (hrun : Runner.Genuine run) (room : Nat)
    (nested : Bool) : ReadingContext.Repeats r ⟨run, arguments run room, nested⟩ :=
  fun _ _ _ h => (repeats_arguments hr hrun room h).mono fun _ hblank hnil => absurd hnil hblank

end Expression

end QuantityCalc
