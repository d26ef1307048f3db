import QuantityCalc.Proofs.Label.Expressions
import QuantityCalc.Proofs.Run.Entries

/-!
# Commands with backed quantities

Commands store and return values of expressions, and they declare units. So they lead from backed
sessions to backed sessions, and the values that they return are backed. With a budget for nested
activations all bodies do so (`backed_activation`).
-/

namespace QuantityCalc

open Session

variable {L : Labelling} {s t : Session} {run : Runner} {path symbol : String} {value : Quantity}

/-! ## Changes of a session -/

namespace Session

/-- A variable is defined with a backed value. -/
theorem Backed.define (hs : s.Backed L) (hvalue : L.Backs s.system value.unit)
    (h : s.afterDefine path value = .ok t) : s.Leads L t := by
  obtain ⟨⟨scope, name⟩, -, h⟩ := Except.bind_eq_ok.1 h
  rw [eq_insert_of_bind h]
  refine hs.insert fun q heq => ?_
  cases heq
  exact hvalue

/-- A variable is assigned a backed value, wherever it is found. -/
theorem Backed.assign (hs : s.Backed L) (hvalue : L.Backs s.system value.unit)
    (h : s.afterAssign path value = .ok t) : s.Leads L t := by
  have hvar (q : Quantity) (heq : Item.var value = .var q) : L.Backs s.system q.unit := by
    cases heq
    exact hvalue
  unfold afterAssign at h
  split at h
  · exact hs.define hvalue h
  · split at h
    · cases h
      exact hs.insert hvar
    · cases h
    · cases h
      exact hs.insert hvar

/-- A function that is registered is no quantity. -/
theorem Backed.registerFunction (hs : s.Backed L) {f : UserFunction}
    (h : s.afterRegisterFunction f = .ok t) : s.Leads L t := by
  unfold afterRegisterFunction at h
  split at h
  · split at h
    · cases h
      exact hs.insert nofun
    · cases h
  · cases h
    exact hs.insert nofun

theorem Backed.declareNamespace (hs : s.Backed L) {id : Nat}
    (h : s.afterDeclareNamespace path = .ok (id, t)) : s.Leads L t := by
  obtain ⟨⟨scope, name⟩, -, h⟩ := Except.bind_eq_ok.1 h
  simp only at h
  split at h
  · cases h
  · obtain ⟨u, hu, h⟩ := Except.bind_eq_ok.1 h
    cases h
    have hleads : s.Leads L u := by
      rw [eq_insert_of_bind hu]
      exact hs.insert nofun
    refine hleads.trans (hleads.backed.of_items rfl fun {p m q} hitem => ?_)
    have hpush : (u.pushScope { name := name, parent? := some scope }).item? p m =
        some (.var q) := hitem
    rcases item?_pushScope hpush with ⟨-, hitem⟩ | hold
    · rw [Std.TreeMap.getElem?_emptyc] at hitem
      cases hitem
    · exact .inl ⟨_, _, hold⟩

theorem Backed.remove (hs : s.Backed L) {item : Item} (h : s.afterRemove path = .ok (item, t)) :
    s.Leads L t := by
  obtain ⟨scope, -, h⟩ := Except.bind_eq_ok.1 h
  split at h
  · cases h
  · cases h
  · cases h
    exact hs.of_items rfl fun hitem => .inl ⟨_, _, item?_erase hitem⟩

theorem Backed.setDraft (hs : s.Backed L) (d? : Option Draft) : s.Leads L (s.setDraft d?) := by
  refine hs.of_items rfl fun hitem => ?_
  rw [item?_setDraft] at hitem
  exact .inl ⟨_, _, hitem⟩

theorem Backed.write (hs : s.Backed L) (line : String) : s.Leads L (s.write line) :=
  hs.of_items rfl fun hitem => .inl ⟨_, _, hitem⟩

/-- Lines that are written are no quantities. -/
theorem Backed.writes (hs : s.Backed L) {α : Type} (line : α → String) (items : List α) :
    s.Leads L (items.foldl (fun u item => u.write (line item)) s) := by
  induction items generalizing s with
  | nil => exact hs.leads
  | cons item items ih => exact (hs.write _).trans (ih (hs.write _).backed)

/-- A new unit leaves the units of variables backed, whatever it is equal to. -/
theorem Backed.registerUnit (hs : s.Backed L) {id : Nat}
    (h : s.afterRegisterUnit symbol value = .ok (id, t)) : s.Leads L t := by
  unfold afterRegisterUnit at h
  split at h
  next id' system hdeclare =>
    cases h
    have hgrows : s.system.Grows system :=
      UnitSystem.grows_of_add (r := .declaration symbol value) hdeclare
    have hsound := hs.sound.declare hdeclare
    refine ⟨⟨hsound, fun hitem => ?_⟩, hgrows⟩
    exact L.grows hs.sound hgrows hsound.ordered (hs.value hitem)
  next => cases h

theorem yields_define (hs : s.Backed L) (hvalue : L.Backs s.system value.unit) :
    Action.Yields L (fun _ => []) s (define path value) := by
  rw [define_eq_change]
  exact .change hs (hs.define hvalue)

theorem yields_assign (hs : s.Backed L) (hvalue : L.Backs s.system value.unit) :
    Action.Yields L (fun _ => []) s (assign path value) := by
  rw [assign_eq_change]
  exact .change hs (hs.assign hvalue)

theorem yields_registerFunction (hs : s.Backed L) (f : UserFunction) :
    Action.Yields L (fun _ => []) s (registerFunction f) := by
  rw [registerFunction_eq_change]
  exact .change hs hs.registerFunction

theorem yields_declareNamespace (hs : s.Backed L) (path : String) :
    Action.Yields L (fun _ => []) s (declareNamespace path) := by
  rw [declareNamespace_eq_update]
  exact .update hs fun h => ⟨hs.declareNamespace h, Labelling.backsAll_nil⟩

theorem yields_remove (hs : s.Backed L) (path : String) :
    Action.Yields L (fun _ => []) s (remove path) := by
  rw [remove_eq_update]
  exact .update hs fun h => ⟨hs.remove h, Labelling.backsAll_nil⟩

theorem yields_declareUnit (hs : s.Backed L) (symbol : String) (value : Quantity) :
    Action.Yields L (fun _ => []) s (declareUnit symbol value) := by
  rw [declareUnit_eq_changes]
  have hregister : Action.Yields L (fun _ => []) s
      (Action.update (·.afterRegisterUnit symbol value)) :=
    .update hs fun h => ⟨hs.registerUnit h, Labelling.backsAll_nil⟩
  refine .bind hregister fun id t ht _ => .change ht.backed fun {u} h => ?_
  rw [eq_insert_of_bind h]
  exact ht.backed.insert nofun

end Session

/-! ## Commands -/

/-- The value that a command line returns. -/
def Flow.values : Flow → List Quantity
  | .proceed => []
  | .returned q => [q]

namespace Command

/-- The value that a command returns. -/
def Outcome.values : Outcome → List Quantity
  | .done flow _ => flow.values
  | .lineOfItsOwn _ => []

theorem yields_proceed (hs : s.Backed L) (rest : Text) :
    Action.Yields L Outcome.values s (proceed rest) :=
  .pure hs Labelling.backsAll_nil

theorem yields_reading (hrun : run.Backed L) {α : Type} {values : α → List Quantity}
    {read : ReadingContext → Text → Run (Parsed α)} {text : Text}
    (h : ∀ {context : ReadingContext}, context.Backed L →
      Run.Yields L (Parsed.values values) s (read context text)) :
    Action.Yields L (fun x => values x.1) s (reading read run text) := by
  -- the context is made from the limit that the options of `s` set
  have hcontext := Expression.backed_context hrun s.options.maxNesting false
  have hbind : Action.Yields L (fun x : α × Text => values x.1) s
      (do
        let parsed ← ExceptT.lift
          (read ⟨run, Expression.arguments run s.options.maxNesting, false⟩ text)
        return (← liftExcept parsed.value, parsed.rest)) :=
    .bind (.lift (h hcontext)) fun parsed t ht hparsed =>
      .bind (.liftExcept ht.backed hparsed) fun _ _ hu hvalue => .pure hu.backed hvalue
  exact hbind

/-- The value of the argument of a command is backed. -/
theorem yields_converted (hrun : run.Backed L) (hs : s.Backed L) (text : Text) :
    Action.Yields L (fun x => [x.1]) s (reading Expression.converted run text) :=
  yields_reading hrun fun hcontext => Expression.yields_converted hcontext hs text

/-- A declaration makes functions, and no value. -/
theorem yields_declaration (hs : s.Backed L) (t : Text) :
    Action.Yields L Outcome.values s (declaration t) := by
  have hcontinue : Action.Yields L (fun _ => []) s (modifyGet (continueDeclaration · t)) :=
    .modifyGet (hs.setDraft _) Labelling.backsAll_nil
  refine .bind hcontinue fun parsed u hu _ => ?_
  have hparsed : Action.Yields L (fun _ => []) u (liftExcept parsed.value) := by
    refine .liftExcept hu.backed ?_
    cases parsed.value <;> exact Labelling.backsAll_nil
  refine .bind hparsed fun f? v hv _ => ?_
  split
  next f =>
    refine .bind (yields_registerFunction hv.backed f) fun _ w hw _ => ?_
    exact .pure hw.backed Labelling.backsAll_nil
  next => exact yields_proceed hv.backed _

theorem yields_write (hs : s.Backed L) (line : Session → String) :
    Action.Yields L (fun _ => []) s (modify fun t => t.write (line t)) :=
  .modify (hs.write _) Labelling.backsAll_nil

/-- A list of all items leaves the session as it is, apart from the lines. -/
theorem yields_listing (hs : s.Backed L) :
    Action.Yields L (fun _ => []) s (modify fun s =>
      s.visibleItems.foldl (fun s' (name, item) => s'.write (listed s name item)) s) :=
  .modify (hs.writes _ _) Labelling.backsAll_nil

/-- **Whatever a command returns is backed**, and so is the session behind it. -/
theorem yields_run (hrun : run.Backed L) (hs : s.Backed L) (t args : Text) (k : Keyword) :
    Action.Yields L Outcome.values s (Command.run run t args k) := by
  cases k with
  | print =>
    refine .bind (yields_reading hrun fun hcontext => Expression.yields_list hcontext hs args)
      fun x u hu _ => ?_
    exact .bind (yields_write hu.backed _) fun _ _ hv _ => yields_proceed hv.backed _
  | var =>
    simp only [Command.run]
    split
    · refine .bind (yields_converted hrun hs _) fun x u hu hx => ?_
      exact .bind (yields_define hu.backed (hx x.1 List.mem_cons_self)) fun _ _ hv _ =>
        yields_proceed hv.backed _
    · exact .throw hs _
  | unit =>
    simp only [Command.run]
    split
    · refine .bind (yields_converted hrun hs _) fun x u hu _ => ?_
      exact .bind (yields_declareUnit hu.backed _ _) fun _ _ hv _ => yields_proceed hv.backed _
    · exact .throw hs _
  | func => exact yields_declaration hs t
  | returning =>
    refine .get_bind ?_
    split
    · exact .throw hs _
    · exact .bind (yields_converted hrun hs args) fun x u hu hx => .pure hu.backed hx
  | space =>
    simp only [Command.run]
    split
    · exact .bind (yields_declareNamespace hs _) fun _ _ hv _ => yields_proceed hv.backed _
    · exact .throw hs _
  | remove =>
    simp only [Command.run]
    split
    · exact .bind (yields_remove hs _) fun _ _ hv _ => yields_proceed hv.backed _
    · exact .throw hs _
  | read =>
    simp only [Command.run]
    split
    · exact .throw hs _
    · refine .bind (.lift (yields_findScript hs _)) fun path? u hu _ => ?_
      split
      · refine .bind (yields_runScript hrun hu.backed _) fun value? v hv hvalue => ?_
        split
        · exact .pure hv.backed hvalue
        · exact yields_proceed hv.backed _
      · exact .throw hu.backed _
  | list => exact .bind (yields_listing hs) fun _ _ ht _ => yields_proceed ht.backed _

/-- Without a keyword, a command is an assignment, which stores a backed value, or an expression,
whose value is written. -/
theorem yields_one (hrun : run.Backed L) (hs : s.Backed L) (t : Text) :
    Action.Yields L Outcome.values s (one run t) := by
  refine .get_bind ?_
  split
  · exact yields_declaration hs t
  · simp only
    split
    · exact yields_proceed hs _
    · split
      · exact yields_run hrun hs _ _ _
      · refine .bind (yields_converted hrun hs _) fun x u hu hx => ?_
        exact .bind (yields_assign hu.backed (hx x.1 List.mem_cons_self)) fun _ _ hv _ =>
          yields_proceed hv.backed _
      · refine .bind (yields_converted hrun hs _) fun x u hu _ => ?_
        exact .bind (yields_write hu.backed _) fun _ _ hv _ => yields_proceed hv.backed _

/-! ## Lines -/

/-- A line goes on behind each semicolon, in the session that its command left. -/
theorem yields_lineFrom (hrun : run.Backed L) (hs : s.Backed L) (size : Nat) (t : Text) :
    Action.Yields L Flow.values s (lineFrom run size t) := by
  induction hn : t.length using Nat.strongRecOn generalizing s size t with
  | ind n ih =>
    rw [lineFrom]
    refine .bind (yields_one hrun hs t) fun outcome u hu houtcome => ?_
    split
    · exact .pure hu.backed houtcome
    · split
      next hlt => exact ih _ (hn ▸ hlt) hu.backed _ _ rfl
      next => exact .throw hu.backed _
    · simp only
      split
      · exact .pure hu.backed Labelling.backsAll_nil
      · split
        · split
          next hlt => exact ih _ (hn ▸ hlt) hu.backed _ _ rfl
          next => exact .throw hu.backed _
        · exact .throw hu.backed _

theorem yields_line (hrun : run.Backed L) (hs : s.Backed L) (l : String) :
    Action.Yields L Flow.values s (line run l) :=
  yields_lineFrom hrun hs _ _

theorem yields_cancelDraft (hs : s.Backed L) :
    Action.Yields L (fun _ => []) s (modifyGet cancelDraft) :=
  .modifyGet (hs.setDraft none) Labelling.backsAll_nil

/-- **Lines lead from backed sessions to backed sessions**, and what they return is backed. -/
theorem yields_lines (hrun : run.Backed L) (hs : s.Backed L) (ls : List String) :
    Action.Yields L Option.toList s (lines run ls) := by
  induction ls generalizing s with
  | nil =>
    refine .bind (yields_cancelDraft hs) fun name? t ht _ => ?_
    split
    · exact .throw ht.backed _
    · exact .pure ht.backed Labelling.backsAll_nil
  | cons l ls ih =>
    refine .bind (.lift (yields_line hrun hs l)) fun outcome t ht houtcome => ?_
    split
    · exact ih ht.backed
    · refine .bind (yields_cancelDraft ht.backed) fun _ u hu _ => ?_
      exact .pure hu.backed (ht.backed.backsAll_of_leads hu houtcome)
    · exact .bind (yields_cancelDraft ht.backed) fun _ _ hu _ => .throw hu.backed _

end Command

/-- With any budget, functions and scripts return backed values: by induction on the budget. -/
theorem backed_activation (budget : Nat) : (activation budget).Backed L := by
  induction budget with
  | zero =>
    intro s ls _ r t h
    cases h
  | succ budget ih =>
    intro s ls hs
    exact Command.yields_lines ih hs ls

end QuantityCalc
