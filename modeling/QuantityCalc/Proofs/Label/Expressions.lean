import QuantityCalc.Interpreter
import QuantityCalc.Proofs.Label.Calls

/-!
# Expressions of backed quantities

What an expression is made of is backed: the units behind numbers and the units that names denote
by the system, the values of variables by the session. So the value of an expression is backed, also
when it is converted (`Expression.yields_value`, `Expression.yields_converted`).
-/

namespace QuantityCalc

open Session

variable {L : Labelling} {s : Session} {qs : List Quantity} {run : Runner}
  {context : ReadingContext}

/-- The quantities that the value of a text carries. -/
def Parsed.values {α : Type} (values : α → List Quantity) (parsed : Parsed α) : List Quantity :=
  Except.values values parsed.value

/-- A context in which bodies and arguments lead from backed sessions to backed ones. -/
structure ReadingContext.Backed (L : Labelling) (context : ReadingContext) : Prop where
  run : context.run.Backed L
  arguments : ∀ {s : Session} (t : Text), s.Backed L →
    Run.Yields L (Parsed.values id) s (context.arguments t)

/-! ## Operands -/

namespace Session

variable {home : Home} {name : String}

theorem Backed.backs_of_valueAt? (hs : s.Backed L) {q : Quantity}
    (h : s.valueAt? home name = some q) : L.Backs s.system q.unit := by
  unfold valueAt? itemAt? at h
  cases home with
  | scope p =>
    simp only at h
    split at h
    next hitem =>
      cases h
      exact hs.value hitem
    next => cases h
  | system => cases h
  | builtins => cases h

theorem Backed.backs_of_unit? (hs : s.Backed L) {u : MeasureUnit} (h : s.unit? home name = some u) :
    L.Backs s.system u := by
  unfold unit? at h
  split at h
  · exact L.lookup? hs.sound h
  · split at h
    · exact L.unit? hs.sound h
    · cases h

end Session

namespace Reading

theorem yields_number (hs : s.Backed L) (value : Float) :
    Reading.Yields L (fun q => [q]) s (number value) := by
  refine .get_bind fun c => .session_bind ?_
  split
  next hscan =>
    have hunit := L.scan? hs.sound hscan
    exact .set_bind (.pure hs (Labelling.backsAll_singleton hunit))
  next => exact .set_bind (.throw hs _)
  next =>
    exact .pure hs (Labelling.backsAll_singleton (L.plain _))

theorem yields_arguments (hcontext : context.Backed L) (hs : s.Backed L) :
    Reading.Yields L id s (arguments context) := by
  refine .modify_bind (.get_bind fun c => ?_)
  split
  · exact .set_bind (.pure hs Labelling.backsAll_nil)
  · refine .bind (.lift (hcontext.arguments _ hs)) fun parsed t ht hparsed => .set_bind ?_
    refine .liftExcept_bind ht.backed fun args hargs => ?_
    have hbacks : L.BacksAll t.system args := by
      rw [Parsed.values, Except.mapError_eq_ok.1 hargs] at hparsed
      exact hparsed
    refine .modify_bind (.get_bind fun c => ?_)
    split
    · exact .set_bind (.pure ht.backed hbacks)
    · split
      · exact .throw ht.backed _
      · exact .malformed ht.backed _ _

theorem yields_scriptCall (hcontext : context.Backed L) (hs : s.Backed L) (path : String) :
    Reading.Yields L (fun q => [q]) s (scriptCall context path) := by
  refine .get_bind fun c => ?_
  split
  · exact .throw hs _
  · split
    · exact .throw hs _
    · refine .bind (.act (yields_callFile hcontext.run hs path)) fun value? t ht hvalue => ?_
      split
      · exact .set_bind (.pure ht.backed hvalue)
      · exact .throw ht.backed _

theorem yields_named (hcontext : context.Backed L) (hs : s.Backed L) (name : String)
    (position : Nat) : Reading.Yields L (fun q => [q]) s (named context name position) := by
  refine .get_bind fun c => .session_bind (.set_bind ?_)
  split
  · exact yields_scriptCall hcontext hs _
  next meaning _ =>
    cases meaning.kind with
    | var =>
      refine .session_bind ?_
      split
      next value hvalue =>
        have hbacks := hs.backs_of_valueAt? hvalue
        exact .pure hs (Labelling.backsAll_singleton hbacks)
      next => exact .throw hs _
    | unit =>
      refine .session_bind ?_
      split
      next unit hunit =>
        have hbacks := hs.backs_of_unit? hunit
        exact .pure hs (Labelling.backsAll_singleton hbacks)
      next => exact .throw hs _
    | function =>
      refine .get_bind fun c => ?_
      split
      · refine .set_bind (.bind (yields_arguments hcontext hs) fun args t ht hargs => ?_)
        exact .act (yields_call hcontext.run ht.backed _ _ hargs)
      · exact .malformed hs _ _
    | unitSystem => exact .throw hs _
    | space => exact .throw hs _

end Reading

/-! ## Words -/

/-- The operands that a round of reading gives. -/
def Round.operands : Round → List Quantity
  | .more items _ | .last items => Postfix.operands items

namespace Expression

theorem operands_itemsOf (ops : List Operator) : Postfix.operands (itemsOf ops) = [] := by
  simp [Postfix.operands, itemsOf, Postfix.Item.operand?]

theorem yields_more (hs : s.Backed L) (ops : List Operator) (y : Yard) :
    Reading.Yields L Round.operands s (pure (.more (itemsOf ops) y)) := by
  refine .pure hs ?_
  rw [Round.operands, operands_itemsOf]
  exact Labelling.backsAll_nil

theorem yields_finish (hs : s.Backed L) (y : Yard) (c : Cursor) :
    Reading.Yields L Round.operands s (finish y c) := by
  unfold finish
  split
  · split
    · refine .pure hs ?_
      rw [Round.operands, Postfix.operands_append, operands_itemsOf]
      exact Labelling.backsAll_nil
    · exact .malformed hs _ _
  · refine .pure hs ?_
    rw [Round.operands, operands_itemsOf]
    exact Labelling.backsAll_nil

theorem yields_operand (hs : s.Backed L) {read : Reading Quantity}
    (h : Reading.Yields L (fun q => [q]) s read) (y : Yard) (position : Nat) :
    Reading.Yields L Round.operands s (operand y position read) :=
  .check_bind hs fun _ => .bind h fun _ _ ht hq => .pure ht.backed hq

theorem yields_word (hcontext : context.Backed L) (hs : s.Backed L) (y : Yard) (position : Nat)
    (l : Lexeme) : Reading.Yields L Round.operands s (word context y position l) := by
  cases l with
  | parenOpen =>
    refine .check_bind hs fun _ => .session_bind ?_
    simp only
    split
    · exact .throw hs _
    · exact .pure hs Labelling.backsAll_nil
  | parenClose => exact .check_bind hs fun x => yields_more hs x.1 x.2
  | operator op => exact .check_bind hs fun x => yields_more hs x.1 x.2
  | number l =>
    simp only [word]
    split
    · exact yields_operand hs (Reading.yields_number hs _) y position
    · exact .throw hs _
  | name name => exact yields_operand hs (Reading.yields_named hcontext hs _ _) y position
  | mark c => exact .throw hs _

theorem yields_step (hcontext : context.Backed L) (hs : s.Backed L) (y : Yard) :
    Reading.Yields L Round.operands s (step context y) := by
  rw [step_eq]
  refine .modify_bind (.get_bind fun c => ?_)
  split
  · exact yields_finish hs y c
  · split
    · split
      · exact yields_finish hs y c
      · exact .malformed hs _ _
    · refine .session_bind ?_
      split
      · exact .set_bind (yields_word hcontext hs y _ _)
      · exact .throw hs _

/-! ## Expressions -/

/-- A consumer of streams whose state carries operands of the stream, or what it makes of them. -/
def Backs (L : Labelling) {σ : Type} (consume : List Postfix.Item → σ → Except Error σ)
    (values : σ → List Quantity) : Prop :=
  ∀ ⦃system : UnitSystem⦄ ⦃items : List Postfix.Item⦄ ⦃state state' : σ⦄, system.Sound →
    consume items state = .ok state' → L.BacksAll system (Postfix.operands items) →
    L.BacksAll system (values state) → L.BacksAll system (values state')

theorem backs_run : Backs L Postfix.run id :=
  fun _ _ _ _ hs h hitems hstate => Postfix.backsAll_run hs h hitems hstate

/-- Feeding a stream to a consumer keeps its state backed. -/
theorem yields_feed (hcontext : context.Backed L) {σ : Type}
    {consume : List Postfix.Item → σ → Except Error σ} {values : σ → List Quantity}
    (hconsume : Backs L consume values) (hs : s.Backed L) {state : σ}
    (hstate : L.BacksAll s.system (values state)) (y : Yard) (c : Cursor) :
    Run.Yields L (fun fed => Except.values values fed.state) s
      (feed context consume state y c) := by
  have hconsumed {t : Session} {items : List Postfix.Item} {state : σ} (ht : t.Backed L)
      (hitems : L.BacksAll t.system (Postfix.operands items))
      (hstate : L.BacksAll t.system (values state)) :
      L.BacksAll t.system (Except.values values (consume items state)) := by
    cases hout : consume items state with
    | ok state' => exact hconsume ht.sound hout hitems hstate
    | error e => exact Labelling.backsAll_nil
  induction hn : c.rest.length using Nat.strongRecOn generalizing s state y c with
  | ind n ih =>
    rw [feed]
    refine .bind (yields_step hcontext hs y c) fun x t ht hx => ?_
    have hstate' := hs.backsAll_of_leads ht hstate
    split
    · exact .pure ht.backed (hconsumed ht.backed Labelling.backsAll_nil hstate')
    · exact .pure ht.backed (hconsumed ht.backed hx hstate')
    · have hnext := hconsumed ht.backed hx hstate'
      split
      · exact .pure ht.backed Labelling.backsAll_nil
      next state' hout =>
        rw [hout] at hnext
        split
        next hlt => exact ih _ (hn ▸ hlt) ht.backed hnext _ _ rfl
        next => exact .pure ht.backed Labelling.backsAll_nil

/-- **The value of an expression is backed.** -/
theorem yields_value (hcontext : context.Backed L) (hs : s.Backed L) (t : Text) :
    Run.Yields L (Parsed.values fun q => [q]) s (value context t) := by
  refine .bind (yields_feed hcontext backs_run hs Labelling.backsAll_nil _ _)
    fun fed u hu hfed => ?_
  refine .pure hu.backed ?_
  unfold Parsed.values
  cases hstate : fed.state with
  | error e => exact Labelling.backsAll_nil
  | ok stack =>
    rw [hstate] at hfed
    simp only [Except.bind]
    cases hvalue : Postfix.value? stack with
    | error e => exact Labelling.backsAll_nil
    | ok q? =>
      have hq := Postfix.backs_of_value? hvalue hfed
      cases q? with
      | none => exact Labelling.backsAll_nil
      | some q => exact hq

theorem backs_of_inTarget (hs : s.Backed L) {q r : Quantity} {target : Text}
    (h : inTarget s q target = .ok r) : L.Backs s.system r.unit := by
  obtain ⟨u, hu, h⟩ := Except.bind_eq_ok.1 h
  have hu := L.parse hs.sound (Except.mapError_eq_ok.1 hu)
  split at h
  next hconvert =>
    cases h
    exact Labelling.backs_of_convert hu hconvert
  next =>
    split at h
    · cases h
      exact Labelling.backs_convertOrCombine q hu
    · cases h

/-- **The value of an expression with its target unit is backed.** -/
theorem yields_converted (hcontext : context.Backed L) (hs : s.Backed L) (t : Text) :
    Run.Yields L (Parsed.values fun q => [q]) s (converted context t) := by
  refine .bind (yields_value hcontext hs t) fun ⟨value, rest⟩ u hu hvalue => ?_
  cases value with
  | error e => exact .pure hu.backed Labelling.backsAll_nil
  | ok q =>
    refine .get_bind ?_
    simp only
    split
    · split
      next target rest' _ =>
        refine .pure hu.backed ?_
        unfold Parsed.values
        cases htarget : inTarget u q target with
        | error e => exact Labelling.backsAll_nil
        | ok r =>
          exact Labelling.backsAll_singleton (backs_of_inTarget hu.backed htarget)
      next => exact .pure hu.backed Labelling.backsAll_nil
    · refine .pure hu.backed ?_
      have hq : L.Backs u.system q.unit := hvalue q List.mem_cons_self
      exact Labelling.backsAll_singleton (Labelling.backs_relabel hu.backed.sound hq)

theorem yields_listFrom (hcontext : context.Backed L) (hs : s.Backed L)
    (hqs : L.BacksAll s.system qs) (offset : Nat) (t : Text) :
    Run.Yields L (Parsed.values id) s (listFrom context qs offset t) := by
  induction hn : t.length using Nat.strongRecOn generalizing s qs offset t with
  | ind n ih =>
    rw [listFrom]
    refine .bind (yields_converted hcontext hs t) fun ⟨value, rest⟩ u hu hvalue => ?_
    cases value with
    | error e => exact .pure hu.backed Labelling.backsAll_nil
    | ok q =>
      have hvalues : L.BacksAll u.system (qs ++ [q]) :=
        List.forall_mem_append.2 ⟨hs.backsAll_of_leads hu hqs, hvalue⟩
      simp only
      split
      · split
        next hlt => exact ih _ (hn ▸ hlt) hu.backed hvalues _ _ rfl
        next => exact .pure hu.backed Labelling.backsAll_nil
      · exact .pure hu.backed hvalues

/-- **The values of a list of expressions are backed.** -/
theorem yields_list (hcontext : context.Backed L) (hs : s.Backed L) (t : Text) :
    Run.Yields L (Parsed.values id) s (list context t) :=
  yields_listFrom hcontext hs Labelling.backsAll_nil 0 t

theorem yields_arguments (hrun : run.Backed L) (room : Nat) (hs : s.Backed L) (t : Text) :
    Run.Yields L (Parsed.values id) s (arguments run room t) := by
  induction room generalizing s t with
  | zero => exact .get_bind (.pure hs Labelling.backsAll_nil)
  | succ room ih =>
    have hcontext : ReadingContext.Backed L ⟨run, arguments run room, true⟩ :=
      ⟨hrun, fun t ht => ih ht t⟩
    exact yields_list hcontext hs t

theorem backed_context (hrun : run.Backed L) (room : Nat) (nested : Bool) :
    ReadingContext.Backed L ⟨run, arguments run room, nested⟩ :=
  ⟨hrun, fun t ht => yields_arguments hrun room ht t⟩

/-- Reading at the top level. -/
theorem yields_topLevel {α : Type} {values : α → List Quantity} (hrun : run.Backed L)
    {read : ReadingContext → Run α}
    (h : ∀ {context : ReadingContext}, context.Backed L → Run.Yields L values s (read context)) :
    Run.Yields L values s (topLevel run >>= read) := by
  have htop : (topLevel run >>= read).outcome s =
      (read ⟨run, arguments run s.options.maxNesting, false⟩).outcome s := rfl
  unfold Run.Yields
  rw [htop]
  exact h (backed_context hrun _ _)

end Expression

end QuantityCalc
