import QuantityCalc.Proofs.Expression.Rounds
import QuantityCalc.Proofs.Expression.Sentences

/-!
# The verdict on words

The yard knows the slot behind the words that it has read (`Yard.slot`). A word that may stand there
is admitted, and leads to the slot behind it (`admits_of_behind?`); any other word ends the reading
with a malformation (`step_of_refused`). So the stream of a text of words tells whether they are a
sentence, the beginning of one, or neither (`report_of_words`).
-/

namespace QuantityCalc

open Text

variable {s : Session}

/-- The greatest number of parentheses that are open at a time in words, behind `depth` open
ones. -/
def Expression.Word.nesting : (depth : Nat) → List (Word s) → Nat
  | depth, [] => depth
  | depth, .operand _ :: ws => nesting depth ws
  | depth, .operator _ _ :: ws => nesting depth ws
  | depth, .parenOpen :: ws => nesting (depth + 1) ws
  | depth, .parenClose :: ws => max depth (nesting (depth - 1) ws)

/-! ## The slot of a yard -/

namespace Yard

open Expression

variable {y y' : Yard} {ops : List Operator}

/-- The slot behind the words that were read. -/
def slot (y : Yard) : Slot := ⟨y.depth, y.last = .operand⟩

theorem depth_openGroup (y : Yard) : y.openGroup.depth = y.depth + 1 := List.count_cons_self

theorem count_group (waiting : List Operator) :
    (waiting.dropWhile (· ≠ .parenOpen)).tail.count .parenOpen = waiting.count .parenOpen - 1 := by
  induction waiting with
  | nil => rfl
  | cons op waiting ih =>
    by_cases hop : op = .parenOpen
    · subst hop
      rw [List.dropWhile_cons_of_neg (by simp), List.tail_cons, List.count_cons_self,
        Nat.add_sub_cancel]
    · rw [List.dropWhile_cons_of_pos (by simp [hop]), List.count_cons_of_ne hop]
      exact ih

theorem depth_closeGroup (h : y.closeGroup = .ok (ops, y')) : y'.depth = y.depth - 1 := by
  obtain ⟨-, -, rfl⟩ := closeGroup_eq_ok h
  exact count_group y.waiting

theorem depth_operator {op : Operator} (hop : op ∈ Operator.spelled)
    (h : y.operator op = .ok (ops, y')) : y'.depth = y.depth := by
  obtain ⟨op', hoperates, -, rfl, -⟩ := operator_eq_ok hop h
  have hopen : .parenOpen ∉ y.waiting.takeWhile (yields · op') := by
    intro hmem
    exact ne_parenOpen_of_yields (List.mem_takeWhile_imp (p := (yields · op')) hmem) rfl
  have hsplit := congrArg (List.count .parenOpen)
    (List.takeWhile_append_dropWhile (p := (yields · op')) (l := y.waiting))
  rw [List.count_append, List.count_eq_zero.2 hopen, Nat.zero_add] at hsplit
  simp only [depth]
  rw [List.count_cons_of_ne hoperates.1, hsplit]

theorem isIncomplete_iff (h : y.last ≠ .none) : y.isIncomplete = false ↔ y.slot = .full := by
  simp only [isIncomplete, Bool.or_eq_false_iff, decide_eq_false_iff_not, Nat.not_lt,
    Nat.le_zero, slot, Slot.full, Slot.mk.injEq, decide_eq_true_eq]
  rw [and_comm]
  refine and_congr_right fun _ => ?_
  cases hlast : y.last with
  | none => exact absurd hlast h
  | operand => simp
  | operator => simp

end Yard

namespace Expression

variable {y : Yard} {w : Word s} {ws : List (Word s)} {p : Slot} {context : ReadingContext}
  {c : Cursor} {r : Text}

theorem reading_unary {op : Operator} (hlast : y.last ≠ .operand) (hop : op ∈ [.add, .sub, .not]) :
    ∃ op', y.reading op = .ok op' := by
  simp only [List.mem_cons, List.not_mem_nil, or_false] at hop
  rw [Yard.reading, if_neg hlast]
  rcases hop with rfl | rfl | rfl <;> exact ⟨_, rfl⟩

/-- **A word that may stand in the slot of a yard is admitted there.** -/
theorem admits_of_behind? (h : y.slot.behind? w = some p)
    (hroom : w = .parenOpen → p.depth ≤ s.options.maxNesting) :
    ∃ out y', Admits y w out y' ∧ y'.slot = p ∧ y'.last ≠ .none := by
  cases w with
  | operand o =>
    obtain ⟨hlast, rfl⟩ : y.last ≠ .operand ∧ ⟨y.depth, true⟩ = p := by
      simpa [Slot.behind?, Yard.slot] using h
    exact ⟨_, _, .operand hlast, rfl, by simp [Yard.operand]⟩
  | parenOpen =>
    obtain ⟨hlast, rfl⟩ : y.last ≠ .operand ∧ ⟨y.depth + 1, false⟩ = p := by
      simpa [Slot.behind?, Yard.slot] using h
    refine ⟨_, _, .parenOpen hlast (hroom rfl), ?_, by simp [Yard.openGroup]⟩
    rw [Yard.slot, Yard.depth_openGroup]
    rfl
  | parenClose =>
    obtain ⟨⟨hlast, hdepth⟩, rfl⟩ :
        (y.last = .operand ∧ 0 < y.depth) ∧ ⟨y.depth - 1, true⟩ = p := by
      simpa [Slot.behind?, Yard.slot] using h
    have hclose : y.closeGroup = .ok (y.waiting.takeWhile (· ≠ .parenOpen),
        { y with waiting := (y.waiting.dropWhile (· ≠ .parenOpen)).tail }) := if_pos hlast
    refine ⟨_, _, .parenClose hdepth hclose, ?_, by simp [hlast]⟩
    rw [Yard.slot, Yard.depth_closeGroup hclose, hlast]
    rfl
  | operator op spelled =>
    have hreading : ∃ op', y.reading op = .ok op' ∧ p = ⟨y.depth, false⟩ := by
      by_cases hlast : y.last = .operand
      · obtain ⟨hop, rfl⟩ : op ≠ .not ∧ ⟨y.depth, false⟩ = p := by
          simpa [Slot.behind?, Yard.slot, hlast] using h
        exact ⟨op, by rw [Yard.reading, if_pos hlast, if_neg hop], rfl⟩
      · obtain ⟨hop, rfl⟩ : op ∈ [.add, .sub, .not] ∧ y.slot = p := by
          simpa [Slot.behind?, Yard.slot, hlast] using h
        obtain ⟨op', hop'⟩ := reading_unary hlast hop
        exact ⟨op', hop', by simp [Yard.slot, hlast]⟩
    obtain ⟨op', hop', rfl⟩ := hreading
    have hoperator : y.operator op = .ok (y.waiting.takeWhile (Yard.yields · op'),
        ⟨op' :: y.waiting.dropWhile (Yard.yields · op'), .operator⟩) := by
      rw [Yard.operator, hop']
      rfl
    refine ⟨_, _, .operator spelled hoperator, ?_, by simp⟩
    rw [Yard.slot, Yard.depth_operator spelled hoperator]
    rfl

/-- A word that may not stand in the slot of a yard, apart from a closing parenthesis without an
opening one. -/
theorem word_of_refused (context : ReadingContext) (h : y.slot.behind? w = none)
    (hclose : w = .parenClose → 0 < y.depth) (position : Nat) (c : Cursor) :
    ∃ what, (word context y position w.lexeme).outcome c s =
      .ok ((.error (.malformed position what), c), s) := by
  cases w with
  | operand o =>
    have hlast : y.last = .operand := by simpa [Slot.behind?, Yard.slot] using h
    refine ⟨.missingOperator, ?_⟩
    simp [Word.lexeme, word, o.value_number, operand, Yard.checkOperand, hlast,
      Except.mapError_error]
  | parenOpen =>
    have hlast : y.last = .operand := by simpa [Slot.behind?, Yard.slot] using h
    refine ⟨.missingOperator, ?_⟩
    simp [Word.lexeme, word, Yard.checkOperand, hlast, Except.mapError_error]
  | parenClose =>
    have hdepth := hclose rfl
    have hlast : y.last ≠ .operand := by
      intro hlast
      simp [Slot.behind?, Yard.slot, hlast, hdepth] at h
    refine ⟨.operandBeforeClose, ?_⟩
    simp [Word.lexeme, word, Yard.closeGroup, hlast, Except.mapError_error]
  | operator op spelled =>
    have hoperator : ∃ what, y.operator op = .error what := by
      by_cases hlast : y.last = .operand
      · have hop : op = .not := by simpa [Slot.behind?, Yard.slot, hlast] using h
        refine ⟨.negationAfterOperand, ?_⟩
        rw [Yard.operator, Yard.reading, if_pos hlast, if_pos hop]
        rfl
      · have hop : op ∉ [.add, .sub, .not] := by
          simpa [Slot.behind?, Yard.slot, hlast] using h
        have hunary : op.asUnary? = none := by
          revert hop
          cases op <;> decide
        refine ⟨.missingLeft op, ?_⟩
        rw [Yard.operator, Yard.reading, if_neg hlast, hunary]
        rfl
    obtain ⟨what, hwhat⟩ := hoperator
    refine ⟨what, ?_⟩
    simp [Word.lexeme, word, hwhat, Except.mapError_error]

/-- **A word that may not stand in the slot of a yard is a malformation.** -/
theorem step_of_refused (hnested : context.nested = false) (h : y.slot.behind? w = none)
    (hc : trimStart c.rest = w.text ++ r) (hr : IsBreak r) :
    ∃ d position what,
      (step context y).outcome c s = .ok ((.error (.malformed position what), d), s) := by
  have hends := Word.endsAt_text hr w
  have hscan := Word.scan?_text hr w
  rw [← hc] at hends hscan
  -- a closing parenthesis without an opening one is found before the word is read
  by_cases hclose : (trimStart c.rest).head? = some ')' ∧ y.depth = 0
  · refine ⟨c.skipBlanks, c.skipBlanks.position, .unbalancedClose, ?_⟩
    simp only [step_eq, Reading.outcome_bind, Reading.outcome_modify, Reading.outcome_get,
      Cursor.rest_skipBlanks, hends, Bool.false_eq_true, if_false, Bool.and_eq_true,
      decide_eq_true_eq, hclose, and_self, if_true, hnested, Reading.malformed,
      Reading.outcome_throw]
  · have hopen : w = .parenClose → 0 < y.depth := by
      rintro rfl
      refine Nat.pos_of_ne_zero fun hdepth => hclose ⟨?_, hdepth⟩
      rw [hc]
      rfl
    obtain ⟨what, hword⟩ := word_of_refused context h hopen c.skipBlanks.position
      (c.skipBlanks.moveTo (w.tail ++ r))
    refine ⟨c.skipBlanks.moveTo (w.tail ++ r), c.skipBlanks.position, what, ?_⟩
    simp only [step_eq, Reading.outcome_bind, Reading.outcome_modify, Reading.outcome_get,
      Reading.outcome_session, Reading.outcome_set, Cursor.rest_skipBlanks, hends, hscan, hword,
      Bool.false_eq_true, if_false, Bool.and_eq_true, decide_eq_true_eq, hclose]

/-! ## The stream of words -/

/-- What follows the tokens of words that lead to a slot, or do not lead to any, where the text has
so many bytes. -/
def Reports (extent : Nat) : Option Slot → Option Error → Prop
  | none, report? => ∃ position what, report? = some (.malformed position what)
  | some p, report? => report? = if p = .full then none else some (.unterminated extent none)

theorem Word.le_nesting (depth : Nat) (ws : List (Word s)) : depth ≤ nesting depth ws := by
  induction ws generalizing depth with
  | nil => exact Nat.le_refl depth
  | cons w ws ih =>
    cases w with
    | operand o => exact ih depth
    | operator op spelled => exact ih depth
    | parenOpen => exact Nat.le_trans (Nat.le_succ depth) (ih (depth + 1))
    | parenClose => exact Nat.le_max_left _ _

/-- Behind a word no more parentheses are open at a time than with it. -/
theorem nesting_behind {p' : Slot} (h : p.behind? w = some p') (ws : List (Word s)) :
    Word.nesting p'.depth ws ≤ Word.nesting p.depth (w :: ws) := by
  cases w with
  | operand o =>
    obtain ⟨-, rfl⟩ : p.filled = false ∧ ⟨p.depth, true⟩ = p' := by simpa [Slot.behind?] using h
    exact Nat.le_refl _
  | parenOpen =>
    obtain ⟨-, rfl⟩ : p.filled = false ∧ ⟨p.depth + 1, false⟩ = p' := by
      simpa [Slot.behind?] using h
    exact Nat.le_refl _
  | parenClose =>
    obtain ⟨-, rfl⟩ : (p.filled ∧ 0 < p.depth) ∧ ⟨p.depth - 1, true⟩ = p' := by
      simpa [Slot.behind?] using h
    exact Nat.le_max_right _ _
  | operator op spelled =>
    have hdepth : p'.depth = p.depth := by
      simp only [Slot.behind?] at h
      split at h
      · obtain ⟨-, rfl⟩ : op ≠ .not ∧ ⟨p.depth, false⟩ = p' := by simpa using h
        rfl
      · obtain ⟨-, heq⟩ := Option.ite_none_right_eq_some.1 h
        cases heq
        rfl
    rw [hdepth]
    exact Nat.le_refl _

/-- **The stream of words** from a yard on tells which slot they lead to, if any. -/
theorem stream_of_words (context : ReadingContext) (hnested : context.nested = false)
    (hy : y.last = .none → ws ≠ [])
    (hnesting : Word.nesting y.depth ws ≤ s.options.maxNesting) (before : List Postfix.Item)
    (hc : trimStart c.rest = Word.spaced ws) :
    ∃ (tokens : List Token) (report? : Option Error) (place : Cursor),
      (feed context (fun items before => .ok (before ++ items)) before y c).outcome s =
        .ok (⟨.ok (before ++ (tokens.map .ok ++ report?.toList.map .error)), place⟩, s) ∧
      Reports c.extent (y.slot.follow? ws) report? := by
  -- from word to word, the slot of the yard follows the words, and the extent of the place stays
  induction ws generalizing y c before with
  | nil =>
    have hlast : y.last ≠ .none := fun hlast => hy hlast rfl
    have hstep := step_of_end (s := s) (y := y) context hc
    refine ⟨y.drain.map .operator, if y.slot = .full then none else
      some (.unterminated c.extent none), c.skipBlanks, ?_, rfl⟩
    rw [feed]
    simp only [Run.outcome_bind, Run.outcome_reading, hstep, Run.outcome_pure, itemsOf,
      List.map_map]
    rcases hcase : y.isIncomplete with _ | _
    · rw [if_pos ((Yard.isIncomplete_iff hlast).1 hcase)]
      rfl
    · have hne : y.slot ≠ .full := by
        intro hfull
        rw [(Yard.isIncomplete_iff hlast).2 hfull] at hcase
        cases hcase
      rw [if_neg hne]
      rfl
  | cons w ws ih =>
    have hspaced : trimStart c.rest = w.text ++ Word.behind ws := by rw [hc, Word.spaced_cons]
    have hbreak := Word.isBreak_behind ws
    rw [feed, Slot.follow?_cons]
    cases hbehind : y.slot.behind? w with
    | none =>
      obtain ⟨d, position, what, hstep⟩ := step_of_refused hnested hbehind hspaced hbreak
      refine ⟨[], some (.malformed position what), d, ?_, position, what, rfl⟩
      simp [hstep]
    | some p =>
      have hle := nesting_behind hbehind ws
      have hroom : p.depth ≤ s.options.maxNesting :=
        Nat.le_trans (Word.le_nesting p.depth ws) (Nat.le_trans hle hnesting)
      obtain ⟨out, y', hw, rfl, hlast⟩ := admits_of_behind? hbehind fun _ => hroom
      obtain ⟨d, hd, hextent, hstep⟩ := step_of_admits context hw hspaced hbreak
        (by rw [Word.trimStart_behind]; exact isSymbolChar_of_spaced ws)
      have hlt : d.rest.length < c.rest.length := hd ▸ length_behind_lt hc
      obtain ⟨tokens, report?, place, hfeed, hreport⟩ :=
        ih (y := y') (c := d) (absurd · hlast) (Nat.le_trans hle hnesting)
          (before ++ out.map .ok) (by rw [hd, Word.trimStart_behind])
      refine ⟨out ++ tokens, report?, place, ?_, hextent ▸ hreport⟩
      simp [hstep, hlt, hfeed]

theorem readTokens_words (budget : Nat) (hws : ws ≠ [])
    (h : Word.nesting 0 ws ≤ s.options.maxNesting) :
    ∃ (tokens : List Token) (report? : Option Error) (place : Cursor),
      (Session.readTokens budget (Word.spaced ws)).outcome s =
        .ok ((tokens.map .ok ++ report?.toList.map .error, place), s) ∧
      Reports (bytes (Word.spaced ws)) (Slot.empty.follow? ws) report? := by
  let context : ReadingContext :=
    ⟨activation budget, arguments (activation budget) s.options.maxNesting, false⟩
  have hcontext : (topLevel (activation budget)).outcome s = .ok (context, s) := rfl
  obtain ⟨tokens, report?, place, hfeed, hreport⟩ := stream_of_words (y := {})
    (c := .start (Word.spaced ws)) context rfl (fun _ => hws) h [] (Word.trimStart_spaced ws)
  rw [Cursor.extent_start] at hreport
  refine ⟨tokens, report?, place, ?_, hreport⟩
  simp [Session.readTokens, hcontext, hfeed, Except.toOption]

theorem readTokens_nil (budget : Nat) :
    ∃ place, (Session.readTokens budget []).outcome s = .ok (([], place), s) := by
  let context : ReadingContext :=
    ⟨activation budget, arguments (activation budget) s.options.maxNesting, false⟩
  have hcontext : (topLevel (activation budget)).outcome s = .ok (context, s) := rfl
  have hstep := step_of_end (s := s) (y := {}) (c := .start []) context rfl
  refine ⟨(Cursor.start []).skipBlanks, ?_⟩
  simp only [Session.readTokens, Run.outcome_bind, hcontext]
  rw [feed]
  simp only [Run.outcome_bind, Run.outcome_reading, hstep, Run.outcome_pure]
  rfl

/-- **The stream of a text of words** ends without an error if there are no words or they are a
sentence. It ends with the report that the text ends too early, at the end of the text, if the words
only begin a sentence, and with a malformation if they do not even do that. -/
theorem report_of_words (budget : Nat) (ws : List (Word s))
    (h : Word.nesting 0 ws ≤ s.options.maxNesting) :
    ∃ (tokens : List Token) (report? : Option Error) (place : Cursor),
      (Session.readTokens budget (Word.spaced ws)).outcome s =
        .ok ((tokens.map .ok ++ report?.toList.map .error, place), s) ∧
      (report? = none ↔ ws = [] ∨ Sentence ws) ∧
      (report? = some (.unterminated (bytes (Word.spaced ws)) none) ↔
        ws ≠ [] ∧ ¬Sentence ws ∧ ∃ ws', (∀ w ∈ ws', w.IsPlain) ∧ Sentence (ws ++ ws')) ∧
      ((∃ position what, report? = some (.malformed position what)) ↔
        ws ≠ [] ∧ ¬Sentence ws ∧ ¬∃ ws', Sentence (ws ++ ws')) := by
  by_cases hws : ws = []
  · subst hws
    obtain ⟨place, hread⟩ := readTokens_nil (s := s) budget
    exact ⟨[], none, place, hread, by simp, by simp, by simp⟩
  · obtain ⟨tokens, report?, place, hread, hreport⟩ := readTokens_words budget hws h
    refine ⟨tokens, report?, place, hread, ?_⟩
    match hfollow : Slot.empty.follow? ws with
    | none =>
      rw [hfollow] at hreport
      obtain ⟨position, what, rfl⟩ := hreport
      have hbegins : ¬∃ ws', Sentence (ws ++ ws') := by
        rintro ⟨ws', hsentence⟩
        obtain ⟨p, hp⟩ := exists_follow?_of_sentence hsentence
        rw [hfollow] at hp
        cases hp
      have hsentence : ¬Sentence ws := fun hsentence =>
        hbegins ⟨[], by rwa [List.append_nil]⟩
      have hplain : ¬∃ ws', (∀ w ∈ ws', w.IsPlain) ∧ Sentence (ws ++ ws') :=
        fun ⟨ws', _, hws'⟩ => hbegins ⟨ws', hws'⟩
      exact ⟨by simp [hws, hsentence], by simp [hplain], by simp [hws, hsentence, hbegins]⟩
    | some p =>
      rw [hfollow] at hreport
      have hplain := exists_plain_of_follow? hfollow
      have hbegins : ∃ ws', Sentence (ws ++ ws') := hplain.imp fun _ => And.right
      have hsentence : Sentence ws ↔ p = .full := by
        rw [sentence_iff, hfollow, Option.some.injEq]
      by_cases hp : p = .full
      · obtain rfl : report? = none := by simpa [Reports, hp] using hreport
        exact ⟨by simp [hsentence, hp], by simp [hsentence, hp], by simp [hsentence, hp]⟩
      · obtain rfl : report? = some (.unterminated (bytes (Word.spaced ws)) none) := by
          simpa [Reports, hp] using hreport
        exact ⟨by simp [hsentence, hp, hws], by simp [hsentence, hp, hws, hplain],
          by simp [hbegins]⟩

/-- The beginning `( -` of a sentence in a new session. -/
def opened : List (Word (.start {} .unknown)) :=
  [.parenOpen, .operator .sub (by decide)]

theorem report_of_words_opened :
    Word.nesting 0 opened ≤ 32 ∧
      ∃ (tokens : List Token) (place : Cursor),
        (Session.readTokens 0 "( -".toList).outcome (Session.start {} .unknown) =
          .ok ((tokens.map .ok ++ [.error (.unterminated 3 none)], place),
            Session.start {} .unknown) := by
  have hnesting : Word.nesting 0 opened ≤ 32 := by decide
  have hspaced : Word.spaced opened = "( -".toList := rfl
  have hbytes : bytes (Word.spaced opened) = 3 := by decide
  obtain ⟨tokens, report?, place, hread, -, hcut, -⟩ := report_of_words 0 opened hnesting
  have hfollow : Slot.empty.follow? opened = some ⟨1, false⟩ := by decide
  have hsentence : ¬Sentence opened := by
    rw [sentence_iff, hfollow]
    decide
  have hreport := hcut.2 ⟨by simp [opened], hsentence, exists_plain_of_follow? hfollow⟩
  rw [hreport, hbytes, hspaced] at hread
  exact ⟨hnesting, tokens, place, hread⟩

end Expression

end QuantityCalc
