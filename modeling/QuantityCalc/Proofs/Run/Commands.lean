import QuantityCalc.Proofs.Run.Expressions
import QuantityCalc.Interpreter

/-!
# What commands do to a session

Commands read expressions, make moves, and run scripts in the current scope. So they change the
session as `Evolves` admits (`conforms_one`, `conforms_lines`).
-/

namespace QuantityCalc

open Session

variable {I : Session → Prop} {R : Session → Session → Prop} [IsPreorder Session R] {s : Session}
  {run run' : Runner}

namespace Command

theorem conforms_moves (hI : Invariant I) {α : Type} {m : Action α} (hs : I s)
    (h : ∀ {r : Except Error α} {t : Session}, m.outcome s = .ok (r, t) → Moves s t) :
    Action.Conforms I Evolves s m m :=
  ⟨rfl, fun hm => ⟨evolves_of_moves (h hm), hI.moves hs (h hm)⟩⟩

theorem conforms_reading (hrun : Runner.Serves I R run run') {α : Type}
    {read : ReadingContext → Text → Run (Parsed α)}
    (h : ∀ {context context' : ReadingContext} {t : Session} (text : Text),
      context.Conforms I R context' → I t →
      Run.Conforms I R t (read context text) (read context' text)) (hs : I s) (text : Text) :
    Action.Conforms I R s (reading read run text) (reading read run' text) := by
  -- the context is made from the limit that the options of `s` set
  let context (run : Runner) : ReadingContext :=
    ⟨run, Expression.arguments run s.options.maxNesting, false⟩
  have hcontext : (context run).Conforms I R (context run') :=
    ⟨hrun, fun t ht => Expression.conforms_arguments hrun _ ht t, rfl⟩
  have hbind : Action.Conforms I R s
      (do
        let parsed ← ExceptT.lift (read (context run) text)
        return (← liftExcept parsed.value, parsed.rest))
      (do
        let parsed ← ExceptT.lift (read (context run') text)
        return (← liftExcept parsed.value, parsed.rest)) :=
    .bind (.lift (h text hcontext hs)) fun parsed u hu =>
      .bind (.liftExcept hu _) fun _ _ hv => .pure hv _
  exact ⟨hbind.1, hbind.2⟩

theorem conforms_reading_converted (hrun : Runner.Serves I R run run') (hs : I s) (text : Text) :
    Action.Conforms I R s (reading Expression.converted run text)
      (reading Expression.converted run' text) :=
  conforms_reading hrun (fun text hcontext ht => Expression.conforms_converted hcontext ht text) hs
    text

theorem conforms_reading_list (hrun : Runner.Serves I R run run') (hs : I s) (text : Text) :
    Action.Conforms I R s (reading Expression.list run text)
      (reading Expression.list run' text) :=
  conforms_reading hrun (fun text hcontext ht => Expression.conforms_list hcontext ht text) hs text

theorem conforms_converted (hI : Invariant I) (hrun : Runner.Conforms I run run') (hs : I s)
    (text : Text) :
    Action.Conforms I Evolves s (reading Expression.converted run text)
      (reading Expression.converted run' text) :=
  .mono (·.toEvolves) (conforms_reading_converted (hrun.serves hI) hs text)

theorem conforms_declaration (hI : Invariant I) (hs : I s) (t : Text) :
    Action.Conforms I Evolves s (declaration t) (declaration t) := by
  have hmove := move_of_continueDeclaration s t
  refine .bind (.modifyGet _ (evolves_of_move hmove) (hI.move hs hmove)) fun parsed u hu => ?_
  refine .bind (.liftExcept hu _) fun f? v hv => ?_
  split
  · refine .bind (conforms_moves hI hv moves_of_registerFunction) fun _ _ hw => .pure hw _
  · exact .pure hv _

theorem conforms_write (hI : Invariant I) (hs : I s) (line : Session → String) :
    Action.Conforms I Evolves s (modify fun t => t.write (line t))
      (modify fun t => t.write (line t)) :=
  .modify _ (evolves_of_move (.write _)) (hI.move hs (.write _))

theorem moves_of_writes {α : Type} (line : α → String) (items : List α) (t : Session) :
    Moves t (items.foldl (fun u item => u.write (line item)) t) := by
  induction items generalizing t with
  | nil => exact .refl
  | cons item items ih => exact .head (.write _) (ih _)

theorem conforms_run (hI : Invariant I) (hrun : Runner.Conforms I run run') (hs : I s)
    (t args : Text) (k : Keyword) :
    Action.Conforms I Evolves s (Command.run run t args k) (Command.run run' t args k) := by
  cases k with
  | print =>
    refine .bind (.mono (·.toEvolves) (conforms_reading_list (hrun.serves hI) hs args))
      fun x u hu => ?_
    exact .bind (conforms_write hI hu _) fun _ _ hv => .pure hv _
  | var =>
    simp only [Command.run]
    split
    · refine .bind (conforms_converted hI hrun hs _) fun x u hu => ?_
      exact .bind (conforms_moves hI hu moves_of_define) fun _ _ hv => .pure hv _
    · exact .throw hs _
  | unit =>
    simp only [Command.run]
    split
    · refine .bind (conforms_converted hI hrun hs _) fun x u hu => ?_
      exact .bind (conforms_moves hI hu moves_of_declareUnit) fun _ _ hv => .pure hv _
    · exact .throw hs _
  | func => exact conforms_declaration hI hs t
  | returning =>
    refine .get_bind ?_
    split
    · exact .throw hs _
    · exact .bind (conforms_converted hI hrun hs args) fun x u hu => .pure hu _
  | space =>
    simp only [Command.run]
    split
    · exact .bind (conforms_moves hI hs moves_of_declareNamespace) fun _ _ hv => .pure hv _
    · exact .throw hs _
  | remove =>
    simp only [Command.run]
    split
    · exact .bind (conforms_moves hI hs moves_of_remove) fun _ _ hv => .pure hv _
    · exact .throw hs _
  | read =>
    simp only [Command.run]
    split
    · exact .throw hs _
    · refine .bind (.lift (conforms_findScript hs _)) fun path? u hu => ?_
      split
      · refine .bind (conforms_runScript hrun hu _) fun value? v hv => ?_
        split
        · exact .pure hv _
        · exact .pure hv _
      · exact .throw hu _
  | list =>
    refine .bind (.modify _ ?_ ?_) fun _ _ ht => .pure ht _
    · exact evolves_of_moves (moves_of_writes _ _ s)
    · exact hI.moves hs (moves_of_writes _ _ s)

theorem conforms_one (hI : Invariant I) (hrun : Runner.Conforms I run run') (hs : I s) (t : Text) :
    Action.Conforms I Evolves s (one run t) (one run' t) := by
  refine .get_bind ?_
  split
  · exact conforms_declaration hI hs t
  · simp only
    split
    · exact .pure hs _
    · split
      · exact conforms_run hI hrun hs _ _ _
      · refine .bind (conforms_converted hI hrun hs _) fun x u hu => ?_
        exact .bind (conforms_moves hI hu moves_of_assign) fun _ _ hv => .pure hv _
      · refine .bind (conforms_converted hI hrun hs _) fun x u hu => ?_
        exact .bind (conforms_write hI hu _) fun _ _ hv => .pure hv _

/-! ## Lines -/

theorem conforms_lineFrom (hI : Invariant I) (hrun : Runner.Conforms I run run') (hs : I s)
    (size : Nat) (t : Text) :
    Action.Conforms I Evolves s (lineFrom run size t) (lineFrom run' size t) := by
  induction hn : t.length using Nat.strongRecOn generalizing s size t with
  | ind n ih =>
    rw [lineFrom, lineFrom]
    refine .bind (conforms_one hI hrun hs t) fun outcome u hu => ?_
    split
    · exact .pure hu _
    · split
      · rename_i hlt
        exact ih _ (hn ▸ hlt) hu _ _ rfl
      · exact .throw hu _
    · simp only
      split
      · exact .pure hu _
      · split
        · split
          · rename_i hlt
            exact ih _ (hn ▸ hlt) hu _ _ rfl
          · exact .throw hu _
        · exact .throw hu _

theorem conforms_line (hI : Invariant I) (hrun : Runner.Conforms I run run') (hs : I s)
    (l : String) : Action.Conforms I Evolves s (line run l) (line run' l) :=
  conforms_lineFrom hI hrun hs _ _

theorem conforms_cancelDraft (hI : Invariant I) (hs : I s) :
    Action.Conforms I Evolves s (modifyGet cancelDraft) (modifyGet cancelDraft) :=
  .modifyGet _ (evolves_of_move (move_of_cancelDraft s)) (hI.move hs (move_of_cancelDraft s))

theorem conforms_lines (hI : Invariant I) (hrun : Runner.Conforms I run run') (hs : I s)
    (ls : List String) : Action.Conforms I Evolves s (lines run ls) (lines run' ls) := by
  induction ls generalizing s with
  | nil =>
    refine .bind (conforms_cancelDraft hI hs) fun name? t ht => ?_
    split
    · exact .throw ht _
    · exact .pure ht _
  | cons l ls ih =>
    refine .bind (.lift (conforms_line hI hrun hs l)) fun outcome t ht => ?_
    split
    · exact ih ht
    · exact .bind (conforms_cancelDraft hI ht) fun _ _ hu => .pure hu _
    · exact .bind (conforms_cancelDraft hI ht) fun _ _ hu => .throw hu _

theorem isDeclaring_cancelDraft (s : Session) : s.cancelDraft.2.isDeclaring = false := by
  have hscope : (s.setDraft none).scopes[s.current]? =
      s.scopes[s.current]?.map fun found => { found with draft? := none } := by
    rw [setDraft, scopes_modifyScope, if_pos rfl]
  have hcurrent : (s.setDraft none).current = s.current := rfl
  simp only [isDeclaring, draft?, cancelDraft, hcurrent, hscope]
  cases s.scopes[s.current]? <;> rfl

/-- **Lines leave no declaration open**, in whatever way they end. -/
theorem isDeclaring_lines {run : Runner} {ls : List String} {r : Except Error (Option Quantity)}
    {t : Session} (h : (lines run ls).outcome s = .ok (r, t)) : t.isDeclaring = false := by
  induction ls generalizing s with
  | nil =>
    simp only [lines, Action.outcome_bind, Action.outcome_modifyGet] at h
    split at h <;> cases h <;> exact isDeclaring_cancelDraft s
  | cons l ls ih =>
    simp only [lines, Action.outcome_bind, Action.outcome_lift] at h
    match hline : (line run l).outcome s with
    | .error e =>
      simp only [Run.outcome_action, hline] at h
      cases h
    | .ok (.ok .proceed, u) =>
      simp only [Run.outcome_action, hline] at h
      exact ih h
    | .ok (.ok (.returned q), u) =>
      simp only [Run.outcome_action, hline, Action.outcome_bind, Action.outcome_modifyGet] at h
      cases h
      exact isDeclaring_cancelDraft u
    | .ok (.error e, u) =>
      simp only [Run.outcome_action, hline, Action.outcome_bind, Action.outcome_modifyGet] at h
      cases h
      exact isDeclaring_cancelDraft u

end Command

end QuantityCalc
