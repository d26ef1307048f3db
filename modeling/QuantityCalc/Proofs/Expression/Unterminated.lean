import QuantityCalc.Proofs.Expression.Tree
import QuantityCalc.Proofs.Expression.Verdict

/-!
# Expressions that end too early

If the stream of words ends with the report that the text ends too early, the words are admitted one
after the other, and what they lead to is incomplete (`reads_of_cut`). The operators that still wait
are drained in front of the report. They take what is on the stack, whether it belongs to them or
not. So the report is the outcome if and only if the drained operators that find operands can be
applied to them (`error_of_unterminated`): `2 * 3 m ^` ends in the error that `3 m` is no exponent
for `2`.
-/

namespace QuantityCalc

open Text Expression

/-! ## Drained operators -/

namespace Postfix

variable {op : Operator} {ops : List Operator} {stack : Stack}

/-- Applies operators one after the other, up to the first one that finds too few operands. -/
def settle : List Operator → Stack → Except Error Stack
  | [], stack => .ok stack
  | op :: ops, stack =>
    if stack.length < op.arity then .ok stack
    else run [.ok (.operator op)] stack >>= settle ops

theorem run_operator (h : op.arity ≤ stack.length) (items : List Item) :
    run (.ok (.operator op) :: items) stack = run [.ok (.operator op)] stack >>= run items := by
  rcases operands_of_arity_le h with ⟨hunary, q, stack, rfl⟩ | ⟨hbinary, q, p, stack, rfl⟩
  · rw [run_unary hunary, run_unary hunary]
    rfl
  · rw [run_binary hbinary, run_binary hbinary]
    cases op.binary p q <;> rfl

/-- **The report at the end of a stream** is the outcome, unless an operator before it fails. -/
theorem run_settle (ops : List Operator) (stack : Stack) (position : Nat) (q? : Option Quantity) :
    run (itemsOf ops ++ [.error (.unterminated position q?)]) stack =
      settle ops stack >>= fun stack' => .error (.unterminated position stack'.head?) := by
  induction ops generalizing stack with
  | nil => rfl
  | cons op ops ih =>
    rw [itemsOf, List.map_cons, List.cons_append, settle]
    split
    next hlt =>
      have hcut := underflow_cut (ops.map .operator) stack position q?
      rw [List.map_map] at hcut
      rw [run_underflow hlt]
      exact congrArg Except.error hcut
    next hge =>
      rw [run_operator (Nat.le_of_not_lt hge)]
      cases run [.ok (.operator op)] stack with
      | error e => rfl
      | ok stack' => exact ih stack'

theorem unit_of_run_operator {e : Error} (hop : op.Operates) (h : op.arity ≤ stack.length)
    (hrun : run [.ok (.operator op)] stack = .error e) : ∃ fault, e = .unit fault := by
  rcases operands_of_arity_le h with ⟨hunary, q, stack, rfl⟩ | ⟨hbinary, q, p, stack, rfl⟩
  · rw [run_unary hunary] at hrun
    cases hrun
  · rw [run_binary hbinary] at hrun
    rcases hvalue : op.binary p q with e' | r
    · rw [hvalue] at hrun
      cases hrun
      exact unit_of_binary hop hbinary hvalue
    · rw [hvalue] at hrun
      cases hrun

/-- Drained operators fail only if the arithmetic does. -/
theorem unit_of_settle {e : Error} (hops : ∀ op ∈ ops, op.Operates)
    (h : settle ops stack = .error e) : ∃ fault, e = .unit fault := by
  induction ops generalizing stack with
  | nil => cases h
  | cons op ops ih =>
    rw [settle] at h
    split at h
    next => cases h
    next hge =>
      have hop := hops op List.mem_cons_self
      rcases hrun : run [.ok (.operator op)] stack with e' | stack'
      · rw [hrun] at h
        cases h
        exact unit_of_run_operator hop (Nat.le_of_not_lt hge) hrun
      · rw [hrun] at h
        exact ih (fun op hop => hops op (List.mem_cons_of_mem _ hop)) h

end Postfix

namespace Expression

variable {s t : Session} {y y' : Yard} {w : Word s} {ws : List (Word s)} {out : List Token}
  {context : ReadingContext} {c place : Cursor} {r : Text} {items before : List Postfix.Item}
  {position : Nat} {q? : Option Quantity}

theorem leads_of_admits (h : Admits y w out y') : y.Leads out y' := by
  cases h with
  | operand hlast => exact .operand _ hlast
  | operator spelled hy => exact .operator spelled hy
  | parenOpen hlast hdepth => exact .openGroup hlast
  | parenClose hdepth hy => exact .closeGroup hy

theorem fits_of_reads (h : Reads y ws out y') {n : Nat} (hy : y.Fits n) : ∃ m, y'.Fits m := by
  induction h generalizing n with
  | nil => exact ⟨n, hy⟩
  | cons hw _ ih =>
    obtain ⟨m, -, hm⟩ := Yard.fits_of_leads hy (leads_of_admits hw)
    exact ih hm

/-- The yard and the word determine what the word completes and where it leads to. -/
theorem Admits.unique {out' : List Token} {y'' : Yard} (h : Admits y w out y')
    (h' : Admits y w out' y'') : out = out' ∧ y' = y'' := by
  cases h with
  | operand => cases h'; exact ⟨rfl, rfl⟩
  | parenOpen => cases h'; exact ⟨rfl, rfl⟩
  | operator _ hy =>
    cases h' with
    | operator _ hy' =>
      cases hy.symm.trans hy'
      exact ⟨rfl, rfl⟩
  | parenClose _ hy =>
    cases h' with
    | parenClose _ hy' =>
      cases hy.symm.trans hy'
      exact ⟨rfl, rfl⟩

theorem Reads.unique {out' : List Token} {y'' : Yard} (h : Reads y ws out y')
    (h' : Reads y ws out' y'') : out = out' ∧ y' = y'' := by
  induction h generalizing out' with
  | nil => cases h'; exact ⟨rfl, rfl⟩
  | cons hw _ ih =>
    cases h' with
    | cons hw' hws' =>
      obtain ⟨rfl, rfl⟩ := hw.unique hw'
      obtain ⟨rfl, rfl⟩ := ih hws'
      exact ⟨rfl, rfl⟩

/-! ## Words in front of the report -/

/-- **A word that is not admitted ends the reading with an error**, but not with the report that the
text ends too early. -/
theorem step_of_barred (hnested : context.nested = false) (h : ∀ out y', ¬Admits y w out y')
    (hc : trimStart c.rest = w.text ++ r) (hr : IsBreak r) :
    ∃ d e, (step context y).outcome c s = .ok ((.error e, d), s) ∧
      ∀ position q?, e ≠ .unterminated position q? := by
  cases hbehind : y.slot.behind? w with
  | none =>
    obtain ⟨d, position, what, hstep⟩ := step_of_refused hnested hbehind hc hr
    exact ⟨d, _, hstep, by simp⟩
  | some p =>
    by_cases hroom : w = .parenOpen → p.depth ≤ s.options.maxNesting
    · obtain ⟨out, y', hw, -⟩ := admits_of_behind? hbehind hroom
      exact absurd hw (h out y')
    · -- there is no room for another parenthesis
      obtain ⟨rfl, hdepth⟩ : w = .parenOpen ∧ ¬p.depth ≤ s.options.maxNesting := by
        simpa using hroom
      obtain ⟨hlast, rfl⟩ : y.last ≠ .operand ∧ ⟨y.depth + 1, false⟩ = p := by
        simpa [Slot.behind?, Yard.slot] using hbehind
      have hlimit : s.options.maxNesting ≤ y.depth := by
        simp only at hdepth
        omega
      have hclose : ¬(((.parenOpen : Word s).text ++ r).head? = some ')' ∧ y.depth = 0) := by
        rintro ⟨hhead, -⟩
        cases hhead
      refine ⟨c.skipBlanks.moveTo r, .nesting s.options.maxNesting, ?_, by simp⟩
      rw [step_eq_word context hc (Word.endsAt_text hr _) hclose (Word.scan?_text hr _)]
      simp only [Word.lexeme, word, Yard.checkOperand, hlast, if_false, Except.mapError_ok,
        Reading.outcome_bind, Reading.outcome_check, Reading.outcome_session, hlimit, if_true]
      rfl

/-- **If the report ends the stream of words, they are admitted** one after the other. -/
theorem reads_of_cut (hnested : context.nested = false) (hc : trimStart c.rest = Word.spaced ws)
    (h : (feed context (fun items before => .ok (before ++ items)) before y c).outcome s =
      .ok (⟨.ok (items ++ [.error (.unterminated position q?)]), place⟩, t)) :
    ∃ out y', Reads y ws out y' := by
  induction ws generalizing y c before with
  | nil => exact ⟨[], y, .nil⟩
  | cons w ws ih =>
    have hspaced : trimStart c.rest = w.text ++ Word.behind ws := by rw [hc, Word.spaced_cons]
    have hbreak := Word.isBreak_behind ws
    rw [feed] at h
    by_cases hw : ∃ out y', Admits y w out y'
    · obtain ⟨out, y', hw⟩ := hw
      obtain ⟨d, hd, -, hstep⟩ := step_of_admits context hw hspaced hbreak
        (by rw [Word.trimStart_behind]; exact isSymbolChar_of_spaced ws)
      have hlt : d.rest.length < c.rest.length := hd ▸ length_behind_lt hc
      simp only [Run.outcome_bind, Run.outcome_reading, hstep, hlt, if_true] at h
      obtain ⟨out', y'', hws⟩ := ih (by rw [hd, Word.trimStart_behind]) h
      exact ⟨out ++ out', y'', .cons hw hws⟩
    · have hbarred : ∀ out y', ¬Admits y w out y' := fun out y' hadmits => hw ⟨out, y', hadmits⟩
      obtain ⟨d, e, hstep, he⟩ := step_of_barred hnested hbarred hspaced hbreak
      simp only [Run.outcome_bind, Run.outcome_reading, hstep, Run.outcome_pure] at h
      simp only [Except.ok.injEq, Prod.mk.injEq, Fed.mk.injEq] at h
      obtain ⟨⟨hlast, -⟩, -⟩ := h
      have heq := List.append_inj_right' hlast rfl
      cases heq
      exact absurd rfl (he position q?)

/-! ## The error of the expression -/

/-- What is read of words that are admitted and that lead to an incomplete yard. -/
theorem outcome_of_incomplete (budget : Nat) (h : Reads {} ws out y)
    (hy : y.isIncomplete = true) :
    (∃ place, (Session.readTokens budget (Word.spaced ws)).outcome s =
        .ok ((out.map .ok ++ itemsOf y.drain ++
          [.error (.unterminated (bytes (Word.spaced ws)) none)], place), s)) ∧
      ∀ stack, Postfix.run (out.map .ok) [] = .ok stack →
        (Session.readExpression budget (Word.spaced ws)).outcome s =
          .ok (⟨Postfix.settle y.drain stack >>= fun stack' =>
            .error (.unterminated (bytes (Word.spaced ws)) stack'.head?), []⟩, s) := by
  let context : ReadingContext :=
    ⟨activation budget, arguments (activation budget) s.options.maxNesting, false⟩
  have hcontext : (topLevel (activation budget)).outcome s = .ok (context, s) := rfl
  have htrim : trimStart (Cursor.start (Word.spaced ws)).rest = Word.spaced ws :=
    Word.trimStart_spaced ws
  constructor
  · obtain ⟨d, hfeed, -⟩ := feed_to_end context isGradual_append h [] htrim
    refine ⟨d, ?_⟩
    rw [hy, if_pos rfl, Cursor.extent_start] at hfeed
    simp [Session.readTokens, hcontext, hfeed, Except.toOption, Except.bind]
  · intro stack hstack
    obtain ⟨d, hfeed, hrest⟩ := feed_to_end context isGradual_run h [] htrim
    rw [hy, if_pos rfl, Cursor.extent_start, hstack] at hfeed
    simp only [Except.bind, Postfix.run_settle] at hfeed
    simp only [Session.readExpression, value, Run.outcome_bind, Run.outcome_pure, hcontext, hfeed,
      hrest stack hstack]
    cases Postfix.settle y.drain stack <;> rfl

/-- A stream that is cut short comes from the reading of the words. -/
theorem feed_of_readTokens (budget : Nat) {t' : Text}
    (h : (Session.readTokens budget t').outcome s =
      .ok ((items ++ [.error (.unterminated position q?)], place), t)) :
    (feed ⟨activation budget, arguments (activation budget) s.options.maxNesting, false⟩
        (fun items before => .ok (before ++ items)) [] {} (.start t')).outcome s =
      .ok (⟨.ok (items ++ [.error (.unterminated position q?)]), place⟩, t) := by
  let context : ReadingContext :=
    ⟨activation budget, arguments (activation budget) s.options.maxNesting, false⟩
  have hcontext : (topLevel (activation budget)).outcome s = .ok (context, s) := rfl
  simp only [Session.readTokens, Run.outcome_bind, hcontext] at h
  rcases hfeed : (feed context (fun items before => .ok (before ++ items)) [] {}
      (.start t')).outcome s with halt | ⟨⟨state, place'⟩, t'⟩
  · rw [hfeed] at h
    cases h
  · rw [hfeed] at h
    simp only [Run.outcome_pure, Except.ok.injEq, Prod.mk.injEq] at h
    obtain ⟨⟨hitems, rfl⟩, rfl⟩ := h
    cases state with
    | error e => simp [Except.toOption] at hitems
    | ok read =>
      obtain rfl : read = _ := hitems
      rfl

/-- **The error of an expression that ends too early.** If the stream of words ends with the report
that the text ends too early, the report names the end of the text. If, besides, the operators that
are complete before the end can be applied, the outcome is the report, with the value on top of the
stack, unless one of the drained operators finds operands and cannot be applied to them. Then the
outcome is its error. -/
theorem error_of_unterminated (budget : Nat)
    (hstream : (Session.readTokens budget (Word.spaced ws)).outcome s =
      .ok ((items ++ [.error (.unterminated position q?)], place), t)) :
    position = bytes (Word.spaced ws) ∧
      ∃ out y, Reads {} ws out y ∧ y.isIncomplete = true ∧
        items = out.map .ok ++ itemsOf y.drain ∧
        ∀ stack, Postfix.run (out.map .ok) [] = .ok stack →
          (∃ stack', Postfix.settle y.drain stack = .ok stack' ∧
            (Session.readExpression budget (Word.spaced ws)).outcome s =
              .ok (⟨.error (.unterminated position stack'.head?), []⟩, s)) ∨
          ∃ fault, Postfix.settle y.drain stack = .error (.unit fault) ∧
            (Session.readExpression budget (Word.spaced ws)).outcome s =
              .ok (⟨.error (.unit fault), []⟩, s) := by
  have hfeed := feed_of_readTokens budget hstream
  have htrim := Word.trimStart_spaced ws
  obtain ⟨out, y, hreads⟩ := reads_of_cut rfl htrim hfeed
  obtain ⟨d, hend, -⟩ := feed_to_end _ isGradual_append hreads []
    (c := .start (Word.spaced ws)) htrim
  -- what was read of the text is what the words complete, with an error if the yard is incomplete
  have hitems := hend.symm.trans hfeed
  simp only [Except.bind, List.nil_append, Except.ok.injEq, Prod.mk.injEq, Fed.mk.injEq,
    ← List.append_assoc] at hitems
  obtain ⟨⟨hitems, -⟩, -⟩ := hitems
  have hincomplete : y.isIncomplete = true := by
    rcases hcase : y.isIncomplete with _ | _
    · have hmem : .error (.unterminated position q?) ∈ out.map .ok ++ itemsOf y.drain := by
        rw [hcase, if_neg Bool.false_ne_true, List.append_nil] at hitems
        rw [hitems]
        exact List.mem_append_right _ List.mem_cons_self
      simp [itemsOf] at hmem
    · rfl
  rw [hincomplete, if_pos rfl, Cursor.extent_start] at hitems
  obtain ⟨rfl, hreport⟩ := List.append_inj' hitems rfl
  obtain ⟨rfl, -⟩ : bytes (Word.spaced ws) = position ∧ none = q? := by simpa using hreport
  refine ⟨rfl, out, y, hreads, hincomplete, rfl, fun stack hstack => ?_⟩
  have hvalue := (outcome_of_incomplete budget hreads hincomplete).2 stack hstack
  rcases hsettle : Postfix.settle y.drain stack with e | stack'
  · obtain ⟨m, hfits⟩ := fits_of_reads hreads Yard.fits_start
    obtain ⟨fault, rfl⟩ := Postfix.unit_of_settle (fun op hop => hfits.clean_drain op
      (List.mem_map_of_mem hop)) hsettle
    rw [hsettle] at hvalue
    exact Or.inr ⟨fault, rfl, hvalue⟩
  · rw [hsettle] at hvalue
    exact Or.inl ⟨stack', rfl, hvalue⟩

/-! ## A drained operator between operands that do not belong together -/

theorem scan?_metre : (Session.start {} .unknown).system.scan? ['m'] =
    some (.ok (⟨"m", .base .length, 1, 0, .named⟩, [])) :=
  UnitSystem.scan?_symbol (by simp) (List.forall_mem_singleton.2 rfl) lookup?_metre

/-- The beginning `2 * 3 m ^` of a sentence in a new session. -/
def mispaired : List (Word (.start {} .unknown)) :=
  [.operand two, .operator .mul (by decide), .operand threeMetres, .operator .pow (by decide)]
where
  /-- The operand `2`. -/
  two : Operand (.start {} .unknown) :=
    .ofDigits ['2'] none (by simp) (List.forall_mem_singleton.2 rfl)
  /-- The operand `3 m`. -/
  threeMetres : Operand (.start {} .unknown) :=
    .ofDigits ['3'] (some ⟨['m'], _, scan?_metre⟩) (by simp) (List.forall_mem_singleton.2 rfl)

/-- The power waits in front of the product, which it does not complete. -/
theorem reads_mispaired : Reads {} mispaired
    [.operand mispaired.two.quantity, .operand mispaired.threeMetres.quantity]
    ⟨[.pow, .mul], .operator⟩ := by
  have htwo : Admits {} (.operand mispaired.two) [.operand mispaired.two.quantity]
      ⟨[], .operand⟩ := .operand nofun
  have hmul : Admits (s := .start {} .unknown) ⟨[], .operand⟩ (.operator .mul (by decide)) []
      ⟨[.mul], .operator⟩ := @Admits.operator _ _ _ _ [] _ rfl
  have hthree : Admits ⟨[.mul], .operator⟩ (.operand mispaired.threeMetres)
      [.operand mispaired.threeMetres.quantity] ⟨[.mul], .operand⟩ := .operand nofun
  have hpow : Admits (s := .start {} .unknown) ⟨[.mul], .operand⟩ (.operator .pow (by decide)) []
      ⟨[.pow, .mul], .operator⟩ := @Admits.operator _ _ _ _ [] _ rfl
  exact .cons htwo (.cons hmul (.cons hthree (.single hpow)))

theorem spaced_mispaired : Word.spaced mispaired = "2 * 3 m ^".toList := rfl

theorem bytes_mispaired : bytes (Word.spaced mispaired) = 9 := by decide

/-- The operators of `2 * 3 m ^` that are complete before the end can be applied, since there are
none. But the drained power finds `2` and `3 m`, and its error takes the place of the report. -/
theorem other_error_of_drained :
    ∃ out y place stack, Reads {} mispaired out y ∧
      (Session.readTokens 0 "2 * 3 m ^".toList).outcome (Session.start {} .unknown) =
        .ok ((out.map .ok ++ itemsOf y.drain ++ [.error (.unterminated 9 none)], place),
          Session.start {} .unknown) ∧
      Postfix.run (out.map .ok) [] = .ok stack ∧
      (Session.readExpression 0 "2 * 3 m ^".toList).outcome (Session.start {} .unknown) =
        .ok (⟨.error (.unit (.dimensionedExponent "m")), []⟩, Session.start {} .unknown) := by
  obtain ⟨⟨place, htokens⟩, hexpression⟩ := outcome_of_incomplete 0 reads_mispaired rfl
  rw [bytes_mispaired, spaced_mispaired] at htokens
  have hvalue := hexpression _ rfl
  rw [spaced_mispaired] at hvalue
  exact ⟨_, _, place, _, reads_mispaired, htokens, rfl, hvalue⟩

theorem error_of_unterminated_mispaired :
    ∃ items place t, (Session.readTokens 0 "2 * 3 m ^".toList).outcome
        (Session.start {} .unknown) = .ok ((items ++ [.error (.unterminated 9 none)], place), t) ∧
      ∃ out y stack, Reads {} mispaired out y ∧ y.isIncomplete = true ∧
        items = out.map .ok ++ itemsOf y.drain ∧ Postfix.run (out.map .ok) [] = .ok stack ∧
        ((∃ stack', Postfix.settle y.drain stack = .ok stack' ∧
          (Session.readExpression 0 "2 * 3 m ^".toList).outcome (Session.start {} .unknown) =
            .ok (⟨.error (.unterminated 9 stack'.head?), []⟩, Session.start {} .unknown)) ∨
          ∃ fault, Postfix.settle y.drain stack = .error (.unit fault) ∧
            (Session.readExpression 0 "2 * 3 m ^".toList).outcome (Session.start {} .unknown) =
              .ok (⟨.error (.unit fault), []⟩, Session.start {} .unknown)) := by
  obtain ⟨⟨place, htokens⟩, -⟩ := outcome_of_incomplete 0 reads_mispaired rfl
  obtain ⟨-, out, y, hreads, hincomplete, hitems, hcases⟩ := error_of_unterminated 0 htokens
  obtain ⟨rfl, rfl⟩ := hreads.unique reads_mispaired
  have herror := hcases _ rfl
  rw [bytes_mispaired, spaced_mispaired] at htokens herror
  exact ⟨_, place, _, htokens, _, _, _, hreads, hincomplete, hitems, rfl, herror⟩

end Expression

end QuantityCalc
