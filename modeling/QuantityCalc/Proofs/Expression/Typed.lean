import QuantityCalc.Proofs.Expression.Tree
import QuantityCalc.Proofs.Text.Trim
import QuantityCalc.Proofs.Unit.Atoms
import QuantityCalc.Proofs.Unit.Growth

/-!
# Values that are typed

A number, with the text of a unit behind it if it has one, is an expression on its own. It is read
as the operand that it is (`value_of_operand`), and behind a minus sign as the operand with the
opposite sign (`value_of_minus`). Nothing is exchanged in such a value for want of a target unit,
because the unit behind a number is not computed (`outcome_readConverted`).
-/

namespace QuantityCalc

open Text

/-! ## Units that are not computed -/

namespace UnitSystem

variable {s : UnitSystem} {u : MeasureUnit}

theorem origin_of_unit? {id : Nat} (h : s.unit? id = some u) : u.origin = .named := by
  rw [Registry.unit?] at h
  split at h
  · cases h
  · split at h
    · cases h
      rfl
    · cases h
      rfl
    · cases h
      rfl
    · split at h
      · obtain ⟨p, -, rfl⟩ := Option.map_eq_some_iff.1 h
        rfl
      · cases h

theorem origin_of_lookup? {name : String} (h : s.lookup? name = some u) : u.origin = .named := by
  unfold lookup? at h
  split at h
  · exact origin_of_unit? h
  · obtain ⟨p, -, hp⟩ := List.exists_of_findSome?_eq_some h
    obtain ⟨w, id, d, v, rfl, -, -, -, -, rfl⟩ := prefixed?_eq_some_iff.1 hp
    rfl

/-- The unit of an expression is not computed. -/
theorem origin_of_resolve {e : UnitExpr} {label : String} (h : s.resolve e label = .ok u) :
    u.origin ≠ .computed := by
  cases hsingle : e.single? with
  | some name =>
    rw [origin_of_lookup? (lookup?_of_resolve hsingle h)]
    decide
  | none =>
    simp only [resolve, hsingle] at h
    obtain ⟨p, -, h⟩ := Except.bind_eq_ok.1 h
    cases h
    simp

end UnitSystem

namespace Expression

variable {s : Session} {o : Operand s}

/-! ## Reading an operand -/

theorem trimStart_operand (o : Operand s) :
    trimStart (Word.operand o).text = Word.spaced [.operand o] := by
  have hspaced : Word.spaced [Word.operand o] = (Word.operand o).text := by
    rw [Word.spaced_cons]
    exact List.append_nil _
  rw [← hspaced, Word.trimStart_spaced]

theorem outcome_value {context : ReadingContext} {t : Text} {q : Quantity} {d : Cursor}
    (h : (feed context Postfix.run [] {} (.start t)).outcome s = .ok (⟨.ok [q], d⟩, s)) :
    (value context t).outcome s = .ok (⟨.ok q, d.rest⟩, s) := by
  simp only [value, Run.outcome_bind, h, Run.outcome_pure]
  rfl

/-- The text of an operand is read as the operand. -/
theorem value_of_operand (context : ReadingContext) (o : Operand s) :
    (value context (Word.operand o).text).outcome s = .ok (⟨.ok o.quantity, []⟩, s) := by
  have hreads : Reads {} [.operand o] [.operand o.quantity] (Yard.operand {}) :=
    .single (.operand (by simp))
  obtain ⟨d, hfeed, hrest⟩ := feed_of_reads context isGradual_run hreads rfl []
    (c := .start (Word.operand o).text) (trimStart_operand o)
  have hd : d.rest = [] := hrest [o.quantity] rfl
  rw [← hd]
  exact outcome_value hfeed

/-- A minus sign at the beginning is read as an operator that waits for its operand. -/
theorem step_minus (context : ReadingContext) (t : Text) :
    ∃ d, d.rest = t ∧ (step context {}).outcome (.start ('-' :: t)) s =
      .ok ((.ok (.more [] ⟨[.minus], .operator⟩), d), s) := by
  have htrim : trimStart ('-' :: t) = '-' :: t :=
    trimStart_of_head? (by rintro _ ⟨⟩; decide)
  have hscan : Lexeme.scan? s.options.decimalComma ('-' :: t) = some (.operator .sub, t) :=
    Lexeme.scan?_of_alone (by decide) (by decide) (by intro op; cases op <;> decide) _ t
  have hyard : Yard.operator {} .sub = .ok ([], ⟨[.minus], .operator⟩) := by decide
  refine ⟨(Cursor.start ('-' :: t)).skipBlanks.moveTo t, rfl, ?_⟩
  rw [step_eq_word context htrim (endsAt_cons (by decide) t) (by simp) hscan]
  simp [word, hyard, Except.mapError_ok, itemsOf]

/-- The text of an operand behind a minus sign is read as the operand with the opposite sign. -/
theorem value_of_minus (context : ReadingContext) (o : Operand s) :
    (value context ('-' :: (Word.operand o).text)).outcome s =
      .ok (⟨.ok o.quantity.neg, []⟩, s) := by
  have hreads : Reads ⟨[.minus], .operator⟩ [.operand o] [.operand o.quantity]
      ⟨[.minus], .operand⟩ := .single (.operand (by simp))
  obtain ⟨d, hd, hstep⟩ := step_minus (s := s) context (Word.operand o).text
  obtain ⟨d', hfeed, hrest⟩ := feed_of_reads context isGradual_run hreads rfl []
    (c := d) (by rw [hd, trimStart_operand])
  have hd' : d'.rest = [] := hrest [o.quantity.neg] rfl
  have hlt : d.rest.length < (Cursor.start ('-' :: (Word.operand o).text)).rest.length := by
    rw [hd]
    exact Nat.lt_succ_self _
  rw [← hd']
  refine outcome_value ?_
  rw [feed]
  simp only [Run.outcome_bind, Run.outcome_reading, hstep, Postfix.run, if_pos hlt]
  exact hfeed

/-! ## Reading a value with its target unit -/

/-- A value that is not computed and fills the text is not changed for want of a target unit. -/
theorem outcome_readConverted {t : Text} {q : Quantity} (budget : Nat)
    (horigin : q.unit.origin ≠ .computed)
    (h : ∀ context, (value context t).outcome s = .ok (⟨.ok q, []⟩, s)) :
    (Session.readConverted budget t).outcome s = .ok (⟨.ok q, []⟩, s) := by
  have hrelabel : q.relabel s.system = q := if_pos horigin
  simp only [Session.readConverted, topLevel, converted, Run.outcome_bind, Run.outcome_get,
    Run.outcome_pure, h]
  simp [trimStart, hrelabel]

end Expression

end QuantityCalc
