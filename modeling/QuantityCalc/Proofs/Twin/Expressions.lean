import QuantityCalc.Proofs.Run.Expressions
import QuantityCalc.Proofs.Twin.Calls

/-!
# Expressions on both sides

Reading an expression looks at the session for names, units and limits. Names and units are the
same on both sides, and where a limit is reached in the first session the reading ends with an
error; a wider limit is not noticed otherwise. So the second reading follows the first one, word by
word (`Expression.follows_step`), and so do the values of expressions and of lists.
-/

namespace QuantityCalc

open Session

variable {A : Accord} {s s' : Session} {run run' : Runner} {context context' : ReadingContext}

/-- What is read on one side follows what is read on the other one. -/
abbrev Parsed.Follows {α : Type} (A : Accord) (s s' : Session) (m m' : Run (Parsed α)) : Prop :=
  Run.Follows A (fun parsed => A.Accepts parsed.value) s s' m m'

/-- A context follows another one in the bodies that it runs and the arguments that it reads. -/
structure ReadingContext.Follows (A : Accord) (context context' : ReadingContext) : Prop where
  run : Runner.Follows A context.run context'.run
  conforms : ReadingContext.Conforms (fun _ => True) Evaluates context context
  arguments : ∀ {s s' : Session} (t : Text), Alike A s s' →
    Parsed.Follows A s s' (context.arguments t) (context'.arguments t)
  nested : context'.nested = context.nested

/-! ## Operands -/

namespace Reading

theorem follows_number (h : Alike A s s') (value : Float) :
    Reading.Follows A s s' (number value) (number value) := by
  refine .get_bind fun c => .session_bind ?_
  rw [h.system]
  split
  · exact .set_bind (.pure h _)
  · exact .set_bind (.throw h _)
  · exact .pure h _

theorem follows_arguments (hcontext : context.Follows A context') (h : Alike A s s') :
    Reading.Follows A s s' (arguments context) (arguments context') := by
  refine .modify_bind (.get_bind fun c => ?_)
  split
  · exact .set_bind (.pure h _)
  · refine .lift_bind (hcontext.arguments _ h) (fun parsed t t' _ ht => ?_)
      fun parsed d t hbad => ?_
    · refine .set_bind (.liftExcept_bind ht fun args _ => .modify_bind (.get_bind fun d => ?_))
      split
      · exact .set_bind (.pure ht _)
      · split
        · exact .throw ht _
        · exact .malformed ht _ _
    · obtain ⟨herrors, e, he⟩ := Accord.not_accepts hbad
      refine ⟨herrors, e.shift c.position, c.moveTo parsed.rest, t, ?_⟩
      simp [he]

theorem follows_scriptCall (hcontext : context.Follows A context') (h : Alike A s s')
    (path : String) :
    Reading.Follows A s s' (scriptCall context path) (scriptCall context' path) := by
  refine .get_bind fun c => ?_
  split
  · exact .throw h _
  · split
    · exact .throw h _
    · refine .bind (.act (follows_callFile hcontext.run h path)) fun value? _ _ t t' _ ht => ?_
      split
      · exact .set_bind (.pure ht _)
      · exact .throw ht _

/-- **Names are read alike on both sides.** -/
theorem follows_named (hcontext : context.Follows A context') (h : Alike A s s') (name : String)
    (position : Nat) :
    Reading.Follows A s s' (named context name position) (named context' name position) := by
  refine .get_bind fun c => .session_bind ?_
  obtain ⟨hresolve, hsees⟩ := h.resolve_eq name c.rest
  rw [hresolve]
  refine .set_bind ?_
  split
  · exact follows_scriptCall hcontext h _
  · rename_i meaning hmeaning
    have hhome := hsees meaning hmeaning
    cases meaning.kind with
    | var =>
      refine .session_bind ?_
      rw [h.valueAt?_eq hhome]
      split
      · exact .pure h _
      · exact .throw h _
    | unit =>
      refine .session_bind ?_
      rw [h.unit?_eq hhome]
      split
      · exact .pure h _
      · exact .throw h _
    | function =>
      refine .get_bind fun c => ?_
      split
      · refine .set_bind (.bind (follows_arguments hcontext h) fun args c d t t' hout ht => ?_)
        -- the arguments may have run bodies, but no scope has moved
        have he : Evaluates s t :=
          ((conforms_arguments hcontext.conforms (s := s) trivial c).2 hout).1
        exact .act (follows_call hcontext.run ht (hhome.evaluates he) _ _)
      · exact .malformed h _ _
    | unitSystem => exact .throw h _
    | space => exact .throw h _

end Reading

/-! ## Words and expressions -/

namespace Expression

theorem follows_finish (h : Alike A s s') (y : Yard) (c : Cursor) :
    Reading.Follows A s s' (finish y c) (finish y c) := by
  unfold finish
  split
  · split
    · exact .pure h _
    · exact .malformed h _ _
  · exact .pure h _

theorem follows_operand {read read' : Reading Quantity} (h : Alike A s s')
    (hread : Reading.Follows A s s' read read') (y : Yard) (position : Nat) :
    Reading.Follows A s s' (operand y position read) (operand y position read') :=
  .check_bind h fun _ => .bind hread fun _ _ _ _ _ _ ht => .pure ht _

theorem follows_word (hcontext : context.Follows A context') (h : Alike A s s') (y : Yard)
    (position : Nat) (l : Lexeme) :
    Reading.Follows A s s' (word context y position l) (word context' y position l) := by
  cases l with
  | parenOpen =>
    refine .check_bind h fun _ => .session_bind ?_
    simp only
    by_cases hle : s.options.maxNesting ≤ y.depth
    · rw [if_pos hle]
      refine .refused h fun herrors => ?_
      rw [(h.options.errors herrors).2.2, if_pos hle]
      rfl
    · have hle' : ¬s'.options.maxNesting ≤ y.depth :=
        fun hle' => hle (Nat.le_trans h.options.nesting hle')
      rw [if_neg hle, if_neg hle']
      exact .pure h _
  | parenClose => exact .check_bind h fun _ => .pure h _
  | operator op => exact .check_bind h fun _ => .pure h _
  | number l =>
    simp only [word]
    split
    · exact follows_operand h (Reading.follows_number h _) y position
    · exact .throw h _
  | name name => exact follows_operand h (Reading.follows_named hcontext h _ _) y position
  | mark c => exact .throw h _

/-- **A word is read alike on both sides.** -/
theorem follows_step (hcontext : context.Follows A context') (h : Alike A s s') (y : Yard) :
    Reading.Follows A s s' (step context y) (step context' y) := by
  rw [step_eq, step_eq]
  refine .modify_bind (.get_bind fun c => ?_)
  rw [hcontext.nested]
  split
  · exact follows_finish h y c
  · split
    · split
      · exact follows_finish h y c
      · exact .malformed h _ _
    · refine .session_bind ?_
      rw [h.options.decimalComma]
      split
      · exact .set_bind (follows_word hcontext h y _ _)
      · exact .throw h _

/-- Errors of the stream are errors of the consumer, or they have to be the same on both sides. -/
def Strict (A : Accord) {σ : Type} (consume : List Postfix.Item → σ → Except Error σ) : Prop :=
  A.errors ∨ ∀ e state, ∃ e', consume [.error e] state = .error e'

theorem strict_run : Strict A Postfix.run := by
  refine Or.inr fun e stack => ?_
  cases e with
  | unterminated position q? => exact ⟨_, rfl⟩
  | _ => exact ⟨_, rfl⟩

theorem follows_feed (hcontext : context.Follows A context') {σ : Type}
    {consume : List Postfix.Item → σ → Except Error σ} (hconsume : Strict A consume)
    (h : Alike A s s') (state : σ) (y : Yard) (c : Cursor) :
    Run.Follows A (fun fed => A.Accepts fed.state) s s' (feed context consume state y c)
      (feed context' consume state y c) := by
  induction hn : c.rest.length using Nat.strongRecOn generalizing s s' state y c with
  | ind n ih =>
    rw [feed, feed]
    refine .bind (follows_step hcontext h y c) (fun x t t' _ _ ht => ?_) fun x t hbad => ?_
    · split
      · exact .pure ht _
      · exact .pure ht _
      · split
        · exact .pure ht _
        · split
          · rename_i hlt
            exact ih _ (hn ▸ hlt) ht _ _ _ rfl
          · exact .pure ht _
    · obtain ⟨r, d⟩ := x
      obtain ⟨herrors, e, rfl⟩ := Accord.not_accepts hbad
      obtain ⟨e', he'⟩ := (hconsume.resolve_left herrors) e state
      refine ⟨_, t, rfl, ?_⟩
      rw [he']
      exact Accord.not_accepts_error herrors e'

theorem follows_value (hcontext : context.Follows A context') (h : Alike A s s') (t : Text) :
    Parsed.Follows A s s' (value context t) (value context' t) := by
  refine .bind (follows_feed hcontext strict_run h _ _ _) (fun fed u u' _ _ hu => .pure hu _)
    fun fed u hbad => ?_
  obtain ⟨herrors, e, he⟩ := Accord.not_accepts hbad
  refine ⟨_, u, rfl, ?_⟩
  rw [he]
  exact Accord.not_accepts_error herrors e

/-- A conversion that succeeds does not depend on how lenient the options are. -/
theorem inTarget_eq (h : Alike A s s') {q : Quantity} {target : Text}
    (haccepts : A.Accepts (inTarget s q target)) : inTarget s' q target = inTarget s q target := by
  simp only [inTarget, h.system] at haccepts ⊢
  rcases hunit : (s.system.parse target).mapError Error.unit with e | unit
  · rfl
  · rcases hconvert : q.convert unit with e | q'
    · simp only [hunit, hconvert, Bind.bind, Except.bind] at haccepts ⊢
      by_cases hlenient : s.options.lenientConversion = true
      · simp only [hlenient, h.options.lenient hlenient]
      · rw [if_neg hlenient] at haccepts
        rw [(h.options.errors (Accord.errors_of_accepts haccepts)).1]
    · simp only [hconvert, Bind.bind, Except.bind]

theorem follows_converted (hcontext : context.Follows A context') (h : Alike A s s') (t : Text) :
    Parsed.Follows A s s' (converted context t) (converted context' t) := by
  refine .bind (follows_value hcontext h t) (fun ⟨value, rest⟩ u u' _ _ hu => ?_)
    fun ⟨value, rest⟩ u hbad => ?_
  · cases value with
    | error e => exact .pure hu _
    | ok q =>
      refine .get_bind ?_
      rw [hu.system]
      split
      · split
        · refine .of_outcome rfl (fun haccepts => ?_) hu
          rw [inTarget_eq hu haccepts]
          rfl
        · exact .pure hu _
      · exact .pure hu _
  · obtain ⟨herrors, e, rfl⟩ := Accord.not_accepts hbad
    exact ⟨_, u, rfl, Accord.not_accepts_error herrors e⟩

theorem follows_listFrom (hcontext : context.Follows A context') (h : Alike A s s')
    (values : List Quantity) (offset : Nat) (t : Text) :
    Parsed.Follows A s s' (listFrom context values offset t)
      (listFrom context' values offset t) := by
  induction hn : t.length using Nat.strongRecOn generalizing s s' values offset t with
  | ind n ih =>
    rw [listFrom, listFrom]
    refine .bind (follows_converted hcontext h t) (fun x u u' _ _ hu => ?_) fun x u hbad => ?_
    · obtain ⟨value, rest⟩ := x
      cases value with
      | error e => exact .pure hu _
      | ok q =>
        simp only
        split
        · split
          · rename_i hlt
            exact ih _ (hn ▸ hlt) hu _ _ _ rfl
          · exact .pure hu _
        · exact .pure hu _
    · obtain ⟨value, rest⟩ := x
      obtain ⟨herrors, e, rfl⟩ := Accord.not_accepts hbad
      exact ⟨_, u, rfl, Accord.not_accepts_error herrors _⟩

theorem follows_list (hcontext : context.Follows A context') (h : Alike A s s') (t : Text) :
    Parsed.Follows A s s' (list context t) (list context' t) :=
  follows_listFrom hcontext h [] 0 t

theorem follows_context (hrun : Runner.Follows A run run') {room room' : Nat} (nested : Bool)
    (h : ∀ {s s' : Session} (t : Text), Alike A s s' →
      Parsed.Follows A s s' (arguments run room t) (arguments run' room' t)) :
    ReadingContext.Follows A ⟨run, arguments run room, nested⟩
      ⟨run', arguments run' room', nested⟩ where
  run := hrun
  conforms := ⟨hrun.conforms.serves invariant_true,
    fun t ht => conforms_arguments (hrun.conforms.serves invariant_true) room ht t, rfl⟩
  arguments := h
  nested := rfl

/-- **More room for argument lists is not noticed.** -/
theorem follows_arguments (hrun : Runner.Follows A run run') {room room' : Nat}
    (hroom : room ≤ room') (herrors : A.errors → room' = room) (h : Alike A s s') (t : Text) :
    Parsed.Follows A s s' (arguments run room t) (arguments run' room' t) := by
  induction room generalizing s s' room' t with
  | zero =>
    refine .of_outcome rfl (fun haccepts => ?_) h
    have hstrict := Accord.errors_of_accepts haccepts
    rw [herrors hstrict]
    simp only [arguments, Run.outcome_bind, Run.outcome_get, Run.outcome_pure,
      (h.options.errors hstrict).2.2]
  | succ room ih =>
    obtain ⟨room', rfl⟩ : ∃ n, room' = n + 1 := Nat.exists_eq_succ_of_ne_zero (by omega)
    refine follows_list (follows_context hrun true fun t h => ?_) h t
    exact ih (by omega) (fun hstrict => Nat.succ.inj (herrors hstrict)) h t

/-- Reading at the top level, on both sides. -/
theorem follows_topLevel {α : Type} {good : α → Prop} (hrun : Runner.Follows A run run')
    {read read' : ReadingContext → Run α}
    (hread : ∀ {context context' : ReadingContext}, context.Follows A context' →
      Run.Follows A good s s' (read context) (read' context')) (h : Alike A s s') :
    Run.Follows A good s s' (topLevel run >>= read) (topLevel run' >>= read') := by
  have hlimit (hstrict : A.errors) := (h.options.errors hstrict).2.2
  exact hread (follows_context hrun false fun t h' =>
    follows_arguments hrun h.options.nesting hlimit h' t)

end Expression

end QuantityCalc
