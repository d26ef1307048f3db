import QuantityCalc.Proofs.Run.Entries
import QuantityCalc.Proofs.Twin.Expressions

/-!
# Commands on both sides

Every command follows itself on the other side (`Command.follows_one`), so lines do
(`Command.follows_lines`). By induction on the budget, so do activations (`follows_activation`). The
second run may have a larger budget, if the accord excuses the first one for exhausting its own.
-/

namespace QuantityCalc

open Session

variable {A : Accord} {s s' : Session} {run run' : Runner}

namespace Command

/-! ## Changes -/

theorem follows_define (h : Alike A s s') (path : String) (value : Quantity) :
    Action.Follows A s s' (define path value) (define path value) := by
  rw [define_eq_change]
  exact .change h (h.agree_define path value)

theorem follows_assign (h : Alike A s s') (path : String) (value : Quantity) :
    Action.Follows A s s' (assign path value) (assign path value) := by
  rw [assign_eq_change]
  exact .change h (h.agree_assign path value)

theorem follows_declareUnit (h : Alike A s s') (symbol : String) (value : Quantity) :
    Action.Follows A s s' (declareUnit symbol value) (declareUnit symbol value) := by
  rw [declareUnit_eq_changes]
  refine .bind (.update h (h.agree_registerUnit symbol value)) fun id t t' hout ht => ?_
  obtain ⟨d, hnew, hsymbol, rfl, rfl, -⟩ :=
    registerUnit_eq_ok (Action.outcome_update_eq_ok.1 hout)
  refine .change ht (ht.agree_bind_current fun {v} hv => ?_)
  exact eq_insert_of_bind hv ▸ .bind (.unit Array.getElem?_push_size hsymbol)

theorem follows_declareNamespace (h : Alike A s s') (path : String) :
    Action.Follows A s s' (declareNamespace path) (declareNamespace path) := by
  rw [declareNamespace_eq_update]
  exact .update h (h.agree_declareNamespace path)

theorem follows_registerFunction (h : Alike A s s') (f : UserFunction) :
    Action.Follows A s s' (registerFunction f) (registerFunction f) := by
  rw [registerFunction_eq_change]
  exact .change h (h.agree_registerFunction f)

theorem follows_remove (h : Alike A s s') (path : String) :
    Action.Follows A s s' (remove path) (remove path) := by
  rw [remove_eq_update]
  exact .update h (h.agree_remove path)

/-! ## Expressions and declarations in commands -/

/-- The argument of a command is read in both sessions, and what is left of it is the same. -/
theorem follows_reading (hrun : Runner.Follows A run run') {α : Type}
    {read : ReadingContext → Text → Run (Parsed α)}
    (hread : ∀ {context context' : ReadingContext} (text : Text), context.Follows A context' →
      Parsed.Follows A s s' (read context text) (read context' text))
    (h : Alike A s s') (text : Text) :
    Action.Follows A s s' (reading read run text) (reading read run' text) := by
  have htop : Parsed.Follows A s s' (Expression.topLevel run >>= (read · text))
      (Expression.topLevel run' >>= (read · text)) :=
    Expression.follows_topLevel hrun (hread text) h
  have hbind : Action.Follows A s s'
      (do
        let parsed ← ExceptT.lift (Expression.topLevel run >>= (read · text))
        return (← liftExcept parsed.value, parsed.rest))
      (do
        let parsed ← ExceptT.lift (Expression.topLevel run' >>= (read · text))
        return (← liftExcept parsed.value, parsed.rest)) := by
    refine .lift_bind htop (fun parsed t t' _ ht => ?_) fun parsed t hbad => ?_
    · exact .bind (.liftExcept ht _) fun _ _ _ _ hu => .pure hu _
    · obtain ⟨herrors, e, he⟩ := Accord.not_accepts hbad
      exact ⟨herrors, e, t, by simp [he]⟩
  exact hbind

theorem follows_converted (hrun : Runner.Follows A run run') (h : Alike A s s') (text : Text) :
    Action.Follows A s s' (reading Expression.converted run text)
      (reading Expression.converted run' text) :=
  follows_reading hrun (fun text hcontext => Expression.follows_converted hcontext h text) h text

theorem follows_declaration (h : Alike A s s') (t : Text) :
    Action.Follows A s s' (declaration t) (declaration t) := by
  obtain ⟨hparsed, halike⟩ := h.continueDeclaration t
  refine .bind (.modifyGet hparsed halike) fun parsed u u' _ hu => ?_
  refine .bind (.liftExcept hu _) fun f? v v' _ hv => ?_
  split
  · exact .bind (follows_registerFunction hv _) fun _ _ _ _ hw => .pure hw _
  · exact .pure hv _

/-! ## Lines of output -/

theorem alike_write (h : Alike A s s') {line line' : String} (hline : A.exact → line' = line) :
    Alike A (s.write line) (s'.write line') :=
  h.of_move (.write line) (h.toResembles.write hline)

theorem format_eq (h : Alike A s s') (hexact : A.exact) (q : Quantity) :
    s'.format q = s.format q := by
  rw [format, h.options.exact hexact, format]

theorem listed_eq (h : Alike A s s') (hexact : A.exact) (name : String) (item : Item) :
    listed s' name item = listed s name item := by
  cases item with
  | var value => simp only [listed, format_eq h hexact]
  | function f scope => rfl
  | unit id => simp only [listed, h.system]
  | unitSystem => rfl
  | space scope => simp only [listed, h.scopeName_eq]

theorem alike_writes {t t' : Session} {α : Type} {line line' : α → String}
    (hline : A.exact → ∀ a, line' a = line a) (items : List α) (ht : Alike A t t') :
    Alike A (items.foldl (fun u a => u.write (line a)) t)
      (items.foldl (fun u a => u.write (line' a)) t') := by
  induction items generalizing t t' with
  | nil => exact ht
  | cons a items ih => exact ih (alike_write ht fun hexact => hline hexact a)

/-! ## Commands -/

/-- **Each command follows itself on the other side.**. -/
theorem follows_run (hrun : Runner.Follows A run run') (h : Alike A s s') (t args : Text)
    (k : Keyword) :
    Action.Follows A s s' (Command.run run t args k) (Command.run run' t args k) := by
  cases k with
  | print =>
    refine .bind (follows_reading hrun (fun text hcontext =>
      Expression.follows_list hcontext h text) h args) fun ⟨values, rest⟩ u u' _ hu => ?_
    refine .bind (.modify _ _ (alike_write hu fun hexact => ?_)) fun _ _ _ _ hv => .pure hv _
    simp only [funext (format_eq hu hexact)]
  | var =>
    simp only [Command.run]
    split
    · refine .bind (follows_converted hrun h _) fun x u u' _ hu => ?_
      exact .bind (follows_define hu _ _) fun _ _ _ _ hv => .pure hv _
    · exact .throw h _
  | unit =>
    simp only [Command.run]
    split
    · refine .bind (follows_converted hrun h _) fun x u u' _ hu => ?_
      exact .bind (follows_declareUnit hu _ _) fun _ _ _ _ hv => .pure hv _
    · exact .throw h _
  | func => exact follows_declaration h t
  | returning =>
    refine .get_bind ?_
    rw [h.depth]
    split
    · exact .throw h _
    · exact .bind (follows_converted hrun h args) fun _ _ _ _ hu => .pure hu _
  | space =>
    simp only [Command.run]
    split
    · exact .bind (follows_declareNamespace h _) fun _ _ _ _ hv => .pure hv _
    · exact .throw h _
  | remove =>
    simp only [Command.run]
    split
    · exact .bind (follows_remove h _) fun _ _ _ _ hv => .pure hv _
    · exact .throw h _
  | read =>
    simp only [Command.run]
    split
    · exact .throw h _
    · refine .lift_bind (follows_findScript h _) (fun path? u u' _ hu => ?_) fun _ _ hgood =>
        absurd trivial hgood
      split
      · refine .bind (follows_runScript hrun hu _) fun value? v v' _ hv => ?_
        split
        · exact .pure hv _
        · exact .pure hv _
      · exact .throw hu _
  | list =>
    refine .bind (.modify _ _ ?_) fun _ _ _ _ ht => .pure ht _
    rw [h.visibleItems_eq]
    exact alike_writes (fun hexact x => listed_eq h hexact x.1 x.2) _ h

/-- The command at the front of a text follows itself, with a keyword or without one. -/
theorem follows_one (hrun : Runner.Follows A run run') (h : Alike A s s') (t : Text) :
    Action.Follows A s s' (one run t) (one run' t) := by
  refine .get_bind ?_
  rw [h.isDeclaring_eq]
  split
  · exact follows_declaration h t
  · simp only
    split
    · exact .pure h _
    · split
      · exact follows_run hrun h _ _ _
      · refine .bind (follows_converted hrun h _) fun x u u' _ hu => ?_
        exact .bind (follows_assign hu _ _) fun _ _ _ _ hv => .pure hv _
      · refine .bind (follows_converted hrun h _) fun ⟨value, rest⟩ u u' _ hu => ?_
        exact .bind (.modify _ _ (alike_write hu fun hexact => format_eq hu hexact value))
          fun _ _ _ _ hv => .pure hv _

/-- A line goes on behind each semicolon on both sides, or on none. -/
theorem follows_lineFrom (hrun : Runner.Follows A run run') (h : Alike A s s') (size : Nat)
    (t : Text) : Action.Follows A s s' (lineFrom run size t) (lineFrom run' size t) := by
  induction hn : t.length using Nat.strongRecOn generalizing s s' size t with
  | ind n ih =>
    rw [lineFrom, lineFrom]
    refine .bind (follows_one hrun h t) fun outcome u u' _ hu => ?_
    split
    · exact .pure hu _
    · split
      · rename_i hlt
        exact ih _ (hn ▸ hlt) hu _ _ rfl
      · exact .throw hu _
    · simp only
      split
      · exact .pure hu _
      · split
        · split
          · rename_i hlt
            exact ih _ (hn ▸ hlt) hu _ _ rfl
          · exact .throw hu _
        · exact .throw hu _

theorem follows_line (hrun : Runner.Follows A run run') (h : Alike A s s') (l : String) :
    Action.Follows A s s' (line run l) (line run' l) :=
  follows_lineFrom hrun h _ _

theorem follows_cancelDraft (h : Alike A s s') :
    Action.Follows A s s' (modifyGet Session.cancelDraft) (modifyGet Session.cancelDraft) :=
  .modifyGet h.cancelDraft.1 h.cancelDraft.2

/-- Lines follow each other as long as the first run goes on. -/
theorem follows_lines (hrun : Runner.Follows A run run') (h : Alike A s s') (ls : List String) :
    Action.Follows A s s' (lines run ls) (lines run' ls) := by
  induction ls generalizing s s' with
  | nil =>
    refine .bind (follows_cancelDraft h) fun name? t t' _ ht => ?_
    split
    · exact .throw ht _
    · exact .pure ht _
  | cons l ls ih =>
    refine .lift_bind (follows_line hrun h l) (fun outcome t t' _ ht => ?_) fun outcome t hbad => ?_
    · split
      · exact ih ht
      · exact .bind (follows_cancelDraft ht) fun _ _ _ _ hu => .pure hu _
      · exact .bind (follows_cancelDraft ht) fun _ _ _ _ hu => .throw hu _
    · obtain ⟨herrors, e, rfl⟩ := Accord.not_accepts hbad
      exact ⟨herrors, e, _, rfl⟩

end Command

/-! ## Activations -/

/-- **Activations follow activations**, with the same budget or a larger one. -/
theorem follows_activation {budget budget' : Nat} (hle : budget ≤ budget')
    (hspent : A.excused .exhausted ∨ A.shared .exhausted ∧ budget' = budget) :
    Runner.Follows A (activation budget) (activation budget') := by
  induction budget generalizing budget' with
  | zero =>
    refine ⟨conforms_activation invariant_true 0, fun {s s'} ls _ _ => ?_⟩
    exact hspent.imp_right fun ⟨hshared, heq⟩ => ⟨hshared, heq ▸ rfl⟩
  | succ budget ih =>
    obtain ⟨larger, rfl⟩ : ∃ larger, budget' = larger + 1 := ⟨budget' - 1, by omega⟩
    have hlarger : Runner.Follows A (activation budget) (activation larger) := by
      refine ih (Nat.le_of_succ_le_succ hle) (hspent.imp_right fun ⟨hshared, heq⟩ => ?_)
      exact ⟨hshared, Nat.succ.inj heq⟩
    exact ⟨conforms_activation invariant_true _,
      fun {_ _} ls h _ => Command.follows_lines hlarger h ls⟩

end QuantityCalc
