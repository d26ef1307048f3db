import QuantityCalc.Proofs.Except
import QuantityCalc.Proofs.Lexeme.Front
import QuantityCalc.Proofs.Run.Outcome
import QuantityCalc.Proofs.Text.Forward
import QuantityCalc.Proofs.Unit.Break
import QuantityCalc.Proofs.Unit.Front
import QuantityCalc.Proofs.Unit.Rest
import QuantityCalc.Interpreter

/-!
# Expressions as lists of words

An expression without names is a list of words: operands, operators and parentheses. An operand is a
number literal, and the text of a unit may follow it. The words of an expression are written with a
space between them (`Word.spaced`).

`Reads y ws out y'` says that the words `ws` are admitted one after the other from the yard `y` on,
that they complete the items `out` of the stream, and that they lead to the yard `y'`. Reading the
text of the words then feeds these items to the consumer (`feed_to_end`), and the stream is complete
if the yard is (`feed_of_reads`).
-/

namespace QuantityCalc

open Text

namespace Expression

/-- A unit behind a number. -/
structure Suffix (s : Session) where
  text : Text
  unit : MeasureUnit
  scan_text : s.system.scan? text = some (.ok (unit, []))

/-- A number literal, and a unit that may follow it. -/
structure Operand (s : Session) where
  literal : Text
  number : Literal
  value : Float
  suffix? : Option (Suffix s)
  scan_literal : Lexeme.scan? s.options.decimalComma literal = some (.number number, [])
  value_number : number.value? = some value

variable {s : Session} {r : Text}

/-- The quantity of an operand. -/
def Operand.quantity (o : Operand s) : Quantity :=
  match o.suffix? with
  | none => .plain o.value
  | some u => ⟨o.value, u.unit⟩

/-- The symbol of a unit as a suffix. -/
def Suffix.ofSymbol (name : Text) (u : MeasureUnit) (hne : name ≠ [])
    (hname : ∀ c ∈ name, UnitExpr.isSymbolChar c = true)
    (h : s.system.lookup? (String.ofList name) = some u) : Suffix s :=
  ⟨name, u, UnitSystem.scan?_symbol hne hname h⟩

/-- A whole number as an operand. -/
def Operand.ofDigits (digits : Text) (suffix? : Option (Suffix s)) (hne : digits ≠ [])
    (h : ∀ d ∈ digits, d.isDigit = true) : Operand s where
  literal := digits
  number := ⟨[], [], digits, [], [], none⟩
  value := (Decimal.ofParts digits [] 0).toFloat
  suffix? := suffix?
  scan_literal := Lexeme.scan?_digits hne h _
  value_number := by cases digits <;> first | rfl | exact absurd rfl hne

/-- A word of an expression. An operator stands in its binary reading, if it has one. -/
inductive Word (s : Session) where
  | operand (o : Operand s)
  | operator (op : Operator) (spelled : op ∈ Operator.spelled)
  | parenOpen
  | parenClose

namespace Word

/-- The text of a word without the unit behind it. -/
def lead : Word s → Text
  | operand o => o.literal
  | operator op _ => op.symbol.toList
  | parenOpen => ['(']
  | parenClose => [')']

/-- The unit behind a word, with the space before it. -/
def tail : Word s → Text
  | operand o => o.suffix?.elim [] fun u => ' ' :: u.text
  | _ => []

/-- The text of a word. -/
def text (w : Word s) : Text := w.lead ++ w.tail

/-- The text of words, with a space before each of them. -/
def behind (ws : List (Word s)) : Text := ws.flatMap fun w => ' ' :: w.text

/-- The text of words, with a space between them. -/
def spaced (ws : List (Word s)) : Text := [' '].intercalate (ws.map text)

/-- The lexeme at the front of a word. -/
def lexeme : Word s → Lexeme
  | operand o => .number o.number
  | operator op _ => .operator op
  | parenOpen => .parenOpen
  | parenClose => .parenClose

/-! ## The first character of a word -/

/-- The characters that words start with. -/
def leads : List Char := Lexeme.digits ++ Operator.signs ++ ['(', ')']

/-- No word starts with white space. -/
theorem isBlank_of_mem_leads : ∀ c ∈ leads, isBlank c = false :=
  forall_mem_of_all (by decide)

/-- No word starts with a character of a symbol of a unit, so it is not read as a unit behind the
word before it. -/
theorem isSymbolChar_of_mem_leads : ∀ c ∈ leads, UnitExpr.isSymbolChar c = false :=
  forall_mem_of_all (by decide)

/-- No word starts with a character at which expressions end. -/
theorem notMem_ends_of_mem_leads : ∀ c ∈ leads, c ∉ [',', '[', ']', ';', '{', '}'] :=
  forall_mem_of_all (by decide)

/-- A word starts with one of the leads. If this is a slash, the word is the slash alone. -/
theorem lead_eq_cons (w : Word s) :
    ∃ c t, w.lead = c :: t ∧ c ∈ leads ∧ (c = '/' → t = [] ∧ w.tail = []) := by
  cases w with
  | operand o =>
    have hscan := o.scan_literal
    match hlit : o.literal with
    | [] =>
      rw [hlit] at hscan
      simp [Lexeme.scan?] at hscan
    | c :: t =>
      rw [hlit] at hscan
      have hdigit := Lexeme.isDigit_of_scan?_eq_number hscan
      refine ⟨c, t, hlit, ?_, ?_⟩
      · simp [leads, Lexeme.mem_digits_of_isDigit hdigit]
      · rintro rfl
        exact absurd hdigit (by decide)
  | operator op h =>
    obtain ⟨c, t, hsym, hc, hslash⟩ := Operator.symbol_eq_cons h
    exact ⟨c, t, hsym, by simp [leads, hc], fun h => ⟨hslash h, rfl⟩⟩
  | parenOpen => exact ⟨_, _, rfl, by decide, fun _ => ⟨rfl, rfl⟩⟩
  | parenClose => exact ⟨_, _, rfl, by decide, fun _ => ⟨rfl, rfl⟩⟩

/-- A word is read as the lexeme at its front. -/
theorem scan?_lead (w : Word s) :
    Lexeme.scan? s.options.decimalComma w.lead = some (w.lexeme, []) := by
  cases w with
  | operand o => exact o.scan_literal
  | operator op h => exact Lexeme.scan?_symbol h _
  | parenOpen => rfl
  | parenClose => rfl

/-- A word is read as its lexeme in front of a break, and the unit behind it is left. -/
theorem scan?_text (hr : IsBreak r) (w : Word s) :
    Lexeme.scan? s.options.decimalComma (w.text ++ r) = some (w.lexeme, w.tail ++ r) := by
  have htail : IsBreak (w.tail ++ r) := by
    cases w with
    | operand o =>
      match h : o.suffix? with
      | none => simpa [tail, h] using hr
      | some u => simpa [tail, h] using IsBreak.space _
    | _ => exact hr
  obtain ⟨c, t, hlead, -⟩ := lead_eq_cons w
  rw [text, List.append_assoc,
    Lexeme.scan?_append htail _ (hlead ▸ List.cons_ne_nil c t), scan?_lead]
  rfl

/-- An expression does not end in front of a word. -/
theorem endsAt_text (hr : IsBreak r) (w : Word s) : endsAt (w.text ++ r) = false := by
  obtain ⟨c, t, hlead, hc, hslash⟩ := lead_eq_cons w
  have hends := notMem_ends_of_mem_leads c hc
  -- only a quotient could start a comment, but a break follows it
  have hcomment : commentMark.isPrefixOf (w.text ++ r) = false := by
    rw [text, hlead]
    by_cases hc : c = '/'
    · obtain ⟨rfl, htail⟩ := hslash hc
      rw [htail]
      cases hr <;> simp [commentMark, List.isPrefixOf]
    · simp [commentMark, List.isPrefixOf, Ne.symm hc]
  rw [endsAt, isOver, hcomment, text, hlead]
  simpa using hends

theorem trimStart_text (w : Word s) (t : Text) : trimStart (w.text ++ t) = w.text ++ t := by
  obtain ⟨c, t', hlead, hc, -⟩ := lead_eq_cons w
  rw [trimStart, text, hlead]
  exact List.dropWhile_cons_of_neg (by simp [isBlank_of_mem_leads c hc])

theorem spaced_cons (w : Word s) (ws : List (Word s)) : spaced (w :: ws) = w.text ++ behind ws := by
  induction ws generalizing w with
  | nil => simp [spaced, behind]
  | cons w' ws ih =>
    have h := ih w'
    simp only [spaced, behind, List.map_cons, List.flatMap_cons] at h ⊢
    rw [List.intercalate_cons_cons, h]
    simp

/-- There is no white space in front of words. -/
theorem trimStart_spaced (ws : List (Word s)) : trimStart (spaced ws) = spaced ws := by
  cases ws with
  | nil => rfl
  | cons w ws => rw [spaced_cons, trimStart_text]

/-- The space before the first word is skipped. -/
theorem trimStart_behind (ws : List (Word s)) : trimStart (behind ws) = spaced ws := by
  cases ws with
  | nil => rfl
  | cons w ws =>
    have hspace : isBlank ' ' = true := by decide
    rw [← trimStart_spaced, spaced_cons, behind, List.flatMap_cons, List.cons_append]
    exact List.dropWhile_cons_of_pos hspace

/-- Words that follow each other are separated by breaks. -/
theorem isBreak_behind (ws : List (Word s)) : IsBreak (behind ws) := by
  cases ws with
  | nil => exact .nil
  | cons w ws => exact .space _

end Word

/-! ## Reading words -/

/-- A word is admitted in a yard: the items that it completes and the yard behind it. -/
inductive Admits : Yard → Word s → List Token → Yard → Prop where
  | operand {y : Yard} {o : Operand s} (hlast : y.last ≠ .operand) :
      Admits y (.operand o) [.operand o.quantity] y.operand
  | operator {y y' : Yard} {op : Operator} {ops : List Operator} (spelled : op ∈ Operator.spelled)
      (hy : y.operator op = .ok (ops, y')) :
      Admits y (.operator op spelled) (ops.map .operator) y'
  | parenOpen {y : Yard} (hlast : y.last ≠ .operand) (hdepth : y.depth < s.options.maxNesting) :
      Admits y .parenOpen [] y.openGroup
  | parenClose {y y' : Yard} {ops : List Operator} (hdepth : 0 < y.depth)
      (hy : y.closeGroup = .ok (ops, y')) :
      Admits y .parenClose (ops.map .operator) y'

/-- Words are admitted one after the other. -/
inductive Reads : Yard → List (Word s) → List Token → Yard → Prop where
  | nil {y : Yard} : Reads y [] [] y
  | cons {y y' y'' : Yard} {w : Word s} {ws : List (Word s)} {out out' : List Token}
      (hw : Admits y w out y') (hws : Reads y' ws out' y'') : Reads y (w :: ws) (out ++ out') y''

variable {y y' y'' : Yard} {w : Word s} {ws ws' : List (Word s)}
  {out out' : List Token} {c : Cursor}

/-- Words are read one after the other, and what they complete is put together. -/
theorem Reads.append (h : Reads y ws out y') (h' : Reads y' ws' out' y'') :
    Reads y (ws ++ ws') (out ++ out') y'' := by
  induction h with
  | nil => exact h'
  | cons hw _ ih => rw [List.cons_append, List.append_assoc]; exact .cons hw (ih h')

theorem Reads.single (h : Admits y w out y') : Reads y [w] out y' := by
  simpa using Reads.cons h .nil

/-- The unit behind a number is that of the operand, and there is none if the operand has none. -/
theorem outcome_number (o : Operand s) (hr : IsBreak r)
    (hnext : ∀ d ∈ (trimStart r).head?, UnitExpr.isSymbolChar d = false)
    (hc : c.rest = (Word.operand o).tail ++ r) :
    ∃ d, d.rest = r ∧ d.extent = c.extent ∧
      (Reading.number o.value).outcome c s = .ok ((.ok o.quantity, d), s) := by
  match hu : o.suffix? with
  | none =>
    have hc : c.rest = r := by simpa [Word.tail, hu] using hc
    have hscan := UnitSystem.scan?_eq_none (s := s.system) hnext
    refine ⟨c, hc, rfl, ?_⟩
    simp only [Reading.number, Reading.outcome_bind, Reading.outcome_get, Reading.outcome_session,
      hc, hscan, Reading.outcome_pure, Operand.quantity, hu]
  | some u =>
    have hc : trimStart c.rest = u.text ++ r := by
      have hspace : isBlank ' ' = true := by decide
      rw [hc, ← UnitSystem.trimStart_of_scan? u.scan_text]
      simp only [Word.tail, hu, Option.elim_some, List.cons_append]
      exact List.dropWhile_cons_of_pos hspace
    have hscan : s.system.scan? (u.text ++ r) = some (.ok (u.unit, r)) := by
      rw [UnitSystem.scan?_append hr, u.scan_text]
      rfl
    have hsuffix : r <:+ c.rest :=
      (hc ▸ UnitSystem.suffix_of_scan? hscan).trans (trimStart_suffix c.rest)
    refine ⟨c.moveTo r, rfl, Cursor.extent_moveTo hsuffix, ?_⟩
    simp only [Reading.number, Reading.outcome_bind, Reading.outcome_get, Reading.outcome_session,
      hc, hscan, Reading.outcome_set, Reading.outcome_pure, Operand.quantity, hu]

/-- **A word is read as it is admitted**, wherever it stands. -/
theorem word_of_admits (context : ReadingContext) (h : Admits y w out y') (position : Nat)
    (hr : IsBreak r)
    (hnext : ∀ d ∈ (trimStart r).head?, UnitExpr.isSymbolChar d = false)
    (hc : c.rest = w.tail ++ r) :
    ∃ d, d.rest = r ∧ d.extent = c.extent ∧ (word context y position w.lexeme).outcome c s =
      .ok ((.ok (.more (out.map .ok) y'), d), s) := by
  cases h with
  | @operand o hlast =>
    obtain ⟨d, hd, hextent, hnumber⟩ := outcome_number o hr hnext hc
    refine ⟨d, hd, hextent, ?_⟩
    simp [Word.lexeme, word, o.value_number, operand, Yard.checkOperand, hlast, hnumber,
      Except.mapError_ok]
  | operator spelled hy =>
    refine ⟨c, hc, rfl, ?_⟩
    simp [Word.lexeme, word, hy, Except.mapError_ok, itemsOf]
  | parenOpen hlast hdepth =>
    refine ⟨c, hc, rfl, ?_⟩
    have hlimit : ¬s.options.maxNesting ≤ y.depth := Nat.not_le_of_lt hdepth
    simp only [Word.lexeme, word, Yard.checkOperand, hlast, if_false, Except.mapError_ok,
      Reading.outcome_bind, Reading.outcome_check, Reading.outcome_session, hlimit,
      Reading.outcome_pure, List.map_nil]
  | parenClose hdepth hy =>
    refine ⟨c, hc, rfl, ?_⟩
    simp [Word.lexeme, word, hy, Except.mapError_ok, itemsOf]

/-- Most characters do not end an expression. -/
theorem endsAt_cons {x : Char} (h : x ∉ ['/', ',', '[', ']', ';', '{', '}']) (t : Text) :
    endsAt (x :: t) = false := by
  obtain ⟨hslash, hmarks⟩ := not_or.1 (List.mem_cons.not.1 h)
  simpa [endsAt, isOver, commentMark, List.isPrefixOf, Ne.symm hslash] using hmarks

/-- A step takes the lexeme at the front of the text, unless the expression ends there. -/
theorem step_eq_word (context : ReadingContext) {t rest : Text} {l : Lexeme}
    (hc : trimStart c.rest = t) (hends : endsAt t = false)
    (hclose : ¬(t.head? = some ')' ∧ y.depth = 0))
    (hscan : Lexeme.scan? s.options.decimalComma t = some (l, rest)) :
    (step context y).outcome c s =
      (word context y c.skipBlanks.position l).outcome (c.skipBlanks.moveTo rest) s := by
  simp only [step_eq, Reading.outcome_bind, Reading.outcome_modify, Reading.outcome_get,
    Reading.outcome_session, Reading.outcome_set, Cursor.rest_skipBlanks, hc, hends, hscan,
    Bool.false_eq_true, if_false, Bool.and_eq_true, decide_eq_true_eq, hclose]

/-- **Reading the text of an admitted word** gives what it completes, and leaves what follows. -/
theorem step_of_admits (context : ReadingContext) (h : Admits y w out y')
    (hc : trimStart c.rest = w.text ++ r) (hr : IsBreak r)
    (hnext : ∀ d ∈ (trimStart r).head?, UnitExpr.isSymbolChar d = false) :
    ∃ d, d.rest = r ∧ d.extent = c.extent ∧
      (step context y).outcome c s = .ok ((.ok (.more (out.map .ok) y'), d), s) := by
  have hsuffix : w.tail ++ r <:+ c.skipBlanks.rest := by
    rw [Cursor.rest_skipBlanks, hc, Word.text, List.append_assoc]
    exact List.suffix_append _ _
  have hscan := Word.scan?_text hr w
  -- a closing parenthesis closes one of the expression
  have hclose : ¬((w.text ++ r).head? = some ')' ∧ y.depth = 0) := by
    rintro ⟨hhead, hdepth⟩
    obtain ⟨t, ht⟩ : ∃ t', w.text ++ r = ')' :: t' := List.head?_eq_some_iff.1 hhead
    rw [ht] at hscan
    simp only [Lexeme.scan?, Option.some.injEq, Prod.mk.injEq] at hscan
    cases h with
    | parenClose hpos => omega
    | _ => simp [Word.lexeme] at hscan
  obtain ⟨d, hd, hextent, hword⟩ :=
    word_of_admits context (c := c.skipBlanks.moveTo (w.tail ++ r)) h c.skipBlanks.position hr
      hnext rfl
  rw [Cursor.extent_moveTo hsuffix, Cursor.extent_skipBlanks] at hextent
  refine ⟨d, hd, hextent, ?_⟩
  rw [step_eq_word context hc (Word.endsAt_text hr w) hclose hscan, hword]

/-- With each word, less is left of the text. -/
theorem length_behind_lt (hc : trimStart c.rest = Word.spaced (w :: ws)) :
    (Word.behind ws).length < c.rest.length := by
  obtain ⟨d, t, hlead, -⟩ := Word.lead_eq_cons w
  have hle := (trimStart_suffix c.rest).length_le
  rw [hc, Word.spaced_cons, Word.text, hlead] at hle
  simp only [List.length_append, List.length_cons] at hle
  omega

/-- The first character of words is none of a symbol of a unit. -/
theorem isSymbolChar_of_spaced (ws : List (Word s)) :
    ∀ d ∈ (Word.spaced ws).head?, UnitExpr.isSymbolChar d = false := by
  cases ws with
  | nil => simp [Word.spaced]
  | cons w ws =>
    obtain ⟨d, t, hlead, hd, -⟩ := Word.lead_eq_cons w
    rw [Word.spaced_cons, Word.text, hlead]
    rintro _ ⟨⟩
    exact Word.isSymbolChar_of_mem_leads d hd

/-- A consumer of correct items may take them in parts. -/
structure IsGradual {σ : Type} (consume : List Postfix.Item → σ → Except Error σ) : Prop where
  nil : ∀ state, consume [] state = .ok state
  append : ∀ (out out' : List Token) state, consume ((out ++ out').map .ok) state =
    (consume (out.map .ok) state).bind (consume (out'.map .ok))

/-- At the end of the text the expression ends, and a report follows if something is missing. -/
theorem step_of_end (context : ReadingContext) (hc : trimStart c.rest = []) :
    (step context y).outcome c s =
      .ok ((.ok (.last (itemsOf y.drain ++
        if y.isIncomplete then [.error (.unterminated c.extent none)] else [])),
        c.skipBlanks), s) := by
  have hends : endsAt [] = true := rfl
  have hover : isOver [] = true := rfl
  have hposition : c.skipBlanks.position = c.extent := by
    rw [Cursor.position_eq_extent hc, Cursor.extent_skipBlanks]
  simp only [step_eq, Reading.outcome_bind, Reading.outcome_modify, Reading.outcome_get,
    Cursor.rest_skipBlanks, hc, hends, if_true, finish, hover, hposition]
  split <;> simp

/-- **Reading the text of admitted words** feeds the items that they complete to the consumer, then
the operators that still wait, and a report if something is missing. If the consumer takes the items
that the words complete, the whole text is read. -/
theorem feed_to_end (context : ReadingContext) {σ : Type}
    {consume : List Postfix.Item → σ → Except Error σ}
    (hconsume : IsGradual consume) (h : Reads y ws out y') :
    ∀ (state : σ) {c : Cursor}, trimStart c.rest = Word.spaced ws →
      ∃ d, (feed context consume state y c).outcome s =
          .ok (⟨(consume (out.map .ok) state).bind (consume (itemsOf y'.drain ++
            if y'.isIncomplete then [.error (.unterminated c.extent none)] else [])), d⟩, s) ∧
        ∀ state', consume (out.map .ok) state = .ok state' → d.rest = [] := by
  induction h with
  | @nil y'' =>
    intro state c hc
    refine ⟨c.skipBlanks, ?_, fun _ _ => hc⟩
    rw [feed]
    simp only [Run.outcome_bind, Run.outcome_reading, step_of_end context hc, Run.outcome_pure,
      List.map_nil, hconsume.nil, Except.bind]
  | @cons y y₁ y' w ws out out' hw _ ih =>
    intro state c hc
    obtain ⟨d, hd, hextent, hstep⟩ := step_of_admits context hw
      (by rw [hc, Word.spaced_cons]) (Word.isBreak_behind ws)
      (by rw [Word.trimStart_behind]; exact isSymbolChar_of_spaced ws)
    rw [feed, hconsume.append]
    rcases hstate : consume (out.map .ok) state with e | state₁
    · refine ⟨d, ?_, fun _ h => by cases h⟩
      simp [hstep, hstate, Except.bind]
    · obtain ⟨d', hfeed, hrest⟩ := ih state₁ (c := d) (by rw [hd, Word.trimStart_behind])
      refine ⟨d', ?_, hrest⟩
      have hlt : d.rest.length < c.rest.length := hd ▸ length_behind_lt hc
      rw [hextent] at hfeed
      simp only [Run.outcome_bind, Run.outcome_reading, hstep, hstate, hlt, if_true]
      exact hfeed

/-- Reading the text of words that complete an expression feeds its stream to the consumer. If the
consumer takes it all, the whole text is read. -/
theorem feed_of_reads (context : ReadingContext) {σ : Type}
    {consume : List Postfix.Item → σ → Except Error σ}
    (hconsume : IsGradual consume) (h : Reads y ws out y') (hy : y'.isIncomplete = false)
    (state : σ) {c : Cursor} (hc : trimStart c.rest = Word.spaced ws) :
    ∃ d, (feed context consume state y c).outcome s =
        .ok (⟨consume ((out ++ y'.drain.map Token.operator).map .ok) state, d⟩, s) ∧
      ∀ state', consume ((out ++ y'.drain.map Token.operator).map .ok) state = .ok state' →
        d.rest = [] := by
  obtain ⟨d, hfeed, hrest⟩ := feed_to_end context hconsume h state hc
  have hdrain : itemsOf y'.drain = (y'.drain.map Token.operator).map .ok := by
    rw [List.map_map]
    rfl
  rw [hy, if_neg Bool.false_ne_true, List.append_nil, hdrain, ← hconsume.append] at hfeed
  refine ⟨d, hfeed, fun state' hstate => ?_⟩
  rw [hconsume.append] at hstate
  obtain ⟨state₁, hout, -⟩ := Except.bind_eq_ok.1 hstate
  exact hrest state₁ hout

end Expression

end QuantityCalc
