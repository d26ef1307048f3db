import QuantityCalc.Proofs.Run.Calls
import QuantityCalc.Expression.Basic

/-!
# What reading expressions does to a session

Only calls change the session while an expression is read. So reading a word, an expression, a list
of expressions or the arguments of a call keeps to whatever relation the calls keep to
(`Runner.Serves`). A call leaves everything as it was but items, units and lines
(`evaluates_of_call`).
-/

namespace QuantityCalc

open Session

variable {I : Session → Prop} {R : Session → Session → Prop} [IsPreorder Session R] {s : Session}
  {run run' : Runner} {context context' : ReadingContext}

/-- Two contexts make calls and read arguments alike, and these keep to a relation. -/
structure ReadingContext.Conforms (I : Session → Prop) (R : Session → Session → Prop)
    (context context' : ReadingContext) : Prop where
  run : Runner.Serves I R context.run context'.run
  arguments : ∀ {s : Session} (t : Text), I s →
    Run.Conforms I R s (context.arguments t) (context'.arguments t)
  nested : context'.nested = context.nested

/-! ## Operands -/

namespace Reading

theorem conforms_number (hs : I s) (value : Float) :
    Reading.Conforms I R s (number value) (number value) := by
  refine .bind (.get hs) fun c t ht => .bind (.session ht) fun u v hv => ?_
  split
  · exact .bind (.set hv _) fun _ _ hw => .pure hw _
  · exact .bind (.set hv _) fun _ _ hw => .throw hw _
  · exact .pure hv _

theorem conforms_arguments (hcontext : context.Conforms I R context') (hs : I s) :
    Reading.Conforms I R s (arguments context) (arguments context') := by
  refine .bind (.modify hs _) fun _ t ht => .bind (.get ht) fun c u hu => ?_
  split
  · exact .bind (.set hu _) fun _ _ hv => .pure hv _
  · refine .bind (.lift (hcontext.arguments _ hu)) fun parsed v hv => ?_
    refine .bind (.set hv _) fun _ w hw => .bind (.liftExcept hw _) fun args x hx => ?_
    refine .bind (.modify hx _) fun _ y hy => .bind (.get hy) fun c z hz => ?_
    split
    · exact .bind (.set hz _) fun _ _ h => .pure h _
    · split
      · exact .throw hz _
      · exact .malformed hz _ _

theorem conforms_scriptCall (hcontext : context.Conforms I R context') (hs : I s) (path : String) :
    Reading.Conforms I R s (scriptCall context path) (scriptCall context' path) := by
  refine .bind (.get hs) fun c t ht => ?_
  split
  · exact .throw ht _
  · split
    · exact .throw ht _
    · refine .bind (.act (hcontext.run.callFile path ht)) fun value? u hu => ?_
      split
      · exact .bind (.set hu _) fun _ _ hv => .pure hv _
      · exact .throw hu _

theorem conforms_named (hcontext : context.Conforms I R context') (hs : I s)
    (name : String) (position : Nat) :
    Reading.Conforms I R s (named context name position) (named context' name position) := by
  refine .bind (.get hs) fun c t ht => .bind (.session ht) fun seen u hu => ?_
  refine .bind (.set hu _) fun _ v hv => ?_
  split
  · exact conforms_scriptCall hcontext hv _
  · rename_i meaning _
    cases meaning.kind with
    | var =>
      refine .bind (.session hv) fun seen w hw => ?_
      split
      · exact .pure hw _
      · exact .throw hw _
    | unit =>
      refine .bind (.session hv) fun seen w hw => ?_
      split
      · exact .pure hw _
      · exact .throw hw _
    | function =>
      refine .bind (.get hv) fun c w hw => ?_
      split
      · refine .bind (.set hw _) fun _ x hx => ?_
        refine .bind (conforms_arguments hcontext hx) fun args y hy => ?_
        exact .act (hcontext.run.call _ _ _ hy)
      · exact .malformed hw _ _
    | unitSystem => exact .throw hv _
    | space => exact .throw hv _

end Reading

/-! ## Words and expressions -/

namespace Expression

theorem conforms_finish (hs : I s) (y : Yard) (c : Cursor) :
    Reading.Conforms I R s (finish y c) (finish y c) := by
  unfold finish
  split
  · split
    · exact .pure hs _
    · exact .malformed hs _ _
  · exact .pure hs _

theorem conforms_operand {read read' : Reading Quantity}
    (h : ∀ {t : Session}, I t → Reading.Conforms I R t read read') (hs : I s) (y : Yard)
    (position : Nat) :
    Reading.Conforms I R s (operand y position read) (operand y position read') :=
  .bind (.check hs _ _) fun _ _ ht => .bind (h ht) fun _ _ hu => .pure hu _

theorem conforms_word (hcontext : context.Conforms I R context') (hs : I s)
    (y : Yard) (position : Nat) (l : Lexeme) :
    Reading.Conforms I R s (word context y position l) (word context' y position l) := by
  cases l with
  | parenOpen =>
    refine .bind (.check hs _ _) fun _ t ht => .bind (.session ht) fun seen u hu => ?_
    simp only
    split
    · exact .throw hu _
    · exact .pure hu _
  | parenClose => exact .bind (.check hs _ _) fun _ _ ht => .pure ht _
  | operator op => exact .bind (.check hs _ _) fun _ _ ht => .pure ht _
  | number l =>
    simp only [word]
    split
    · exact conforms_operand (Reading.conforms_number · _) hs y position
    · exact .throw hs _
  | name name =>
    exact conforms_operand (Reading.conforms_named hcontext · _ _) hs y position
  | mark c => exact .throw hs _

theorem conforms_step (hcontext : context.Conforms I R context') (hs : I s)
    (y : Yard) : Reading.Conforms I R s (step context y) (step context' y) := by
  rw [step_eq, step_eq]
  refine .bind (.modify hs _) fun _ t ht => .bind (.get ht) fun c u hu => ?_
  rw [hcontext.nested]
  split
  · exact conforms_finish hu y c
  · split
    · split
      · exact conforms_finish hu y c
      · exact .malformed hu _ _
    · refine .bind (.session hu) fun seen v hv => ?_
      split
      · exact .bind (.set hv _) fun _ _ hw => conforms_word hcontext hw y _ _
      · exact .throw hv _

theorem conforms_feed (hcontext : context.Conforms I R context') {σ : Type}
    (consume : List Postfix.Item → σ → Except Error σ) (hs : I s) (state : σ) (y : Yard)
    (c : Cursor) :
    Run.Conforms I R s (feed context consume state y c)
      (feed context' consume state y c) := by
  induction hn : c.rest.length using Nat.strongRecOn generalizing s state y c with
  | ind n ih =>
    rw [feed, feed]
    refine .bind (conforms_step hcontext hs y c) fun x t ht => ?_
    split
    · exact .pure ht _
    · exact .pure ht _
    · split
      · exact .pure ht _
      · split
        · rename_i hlt
          exact ih _ (hn ▸ hlt) ht _ _ _ rfl
        · exact .pure ht _

theorem conforms_value (hcontext : context.Conforms I R context') (hs : I s)
    (t : Text) : Run.Conforms I R s (value context t) (value context' t) :=
  .bind (conforms_feed hcontext _ hs _ _ _) fun _ _ ht => .pure ht _

theorem conforms_converted (hcontext : context.Conforms I R context') (hs : I s)
    (t : Text) : Run.Conforms I R s (converted context t) (converted context' t) := by
  refine .bind (conforms_value hcontext hs t) fun ⟨value, rest⟩ u hu => ?_
  cases value with
  | error e => exact .pure hu _
  | ok q =>
    refine .bind (.still hu fun h => by cases h; rfl) fun seen v hv => ?_
    simp only
    split
    · split
      · exact .pure hv _
      · exact .pure hv _
    · exact .pure hv _

theorem conforms_listFrom (hcontext : context.Conforms I R context') (hs : I s)
    (values : List Quantity) (offset : Nat) (t : Text) :
    Run.Conforms I R s (listFrom context values offset t) (listFrom context' values offset t) := by
  induction hn : t.length using Nat.strongRecOn generalizing s values offset t with
  | ind n ih =>
    rw [listFrom, listFrom]
    refine .bind (conforms_converted hcontext hs t) fun ⟨value, rest⟩ u hu => ?_
    cases value with
    | error e => exact .pure hu _
    | ok q =>
      simp only
      split
      · split
        · rename_i hlt
          exact ih _ (hn ▸ hlt) hu _ _ _ rfl
        · exact .pure hu _
      · exact .pure hu _

theorem conforms_list (hcontext : context.Conforms I R context') (hs : I s) (t : Text) :
    Run.Conforms I R s (list context t) (list context' t) :=
  conforms_listFrom hcontext hs [] 0 t

theorem conforms_arguments (hrun : Runner.Serves I R run run') (room : Nat) (hs : I s) (t : Text) :
    Run.Conforms I R s (arguments run room t) (arguments run' room t) := by
  induction room generalizing s t with
  | zero => exact .bind (.still hs fun h => by cases h; rfl) fun _ _ ht => .pure ht _
  | succ room ih =>
    have hcontext : ReadingContext.Conforms I R ⟨run, arguments run room, true⟩
        ⟨run', arguments run' room, true⟩ := ⟨hrun, fun t ht => ih ht t, rfl⟩
    exact conforms_list hcontext hs t

/-- Reading at the top level, in two ways that agree in every context. -/
theorem conforms_topLevel {α : Type} (hrun : Runner.Serves I R run run')
    {read read' : ReadingContext → Run α}
    (h : ∀ {context context' : ReadingContext} {t : Session}, context.Conforms I R context' → I t →
      Run.Conforms I R t (read context) (read' context')) (hs : I s) :
    Run.Conforms I R s (topLevel run >>= read) (topLevel run' >>= read') := by
  have htop (run : Runner) (read : ReadingContext → Run α) : (topLevel run >>= read).outcome s =
      (read ⟨run, arguments run s.options.maxNesting, false⟩).outcome s := rfl
  rw [Run.Conforms, htop, htop]
  exact h ⟨hrun, fun t ht => conforms_arguments hrun _ ht t, rfl⟩ hs

end Expression

end QuantityCalc
