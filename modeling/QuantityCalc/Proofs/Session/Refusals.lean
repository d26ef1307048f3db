import QuantityCalc.Command.Basic
import QuantityCalc.Proofs.Run.Reachable

/-!
# Requests that are refused

A `Request` asks for a change of what names are bound to. A request that is refused leaves the
session as it was, with one exception (`eq_of_refused`). A unit is registered before its symbol is
bound. So if the current scope binds the symbol to something else, the declaration is refused, but
the system keeps the unit (`Request.Splits`). From then on the symbol is registered, and it cannot
be declared again (`duplicate_of_declare`).
-/

namespace QuantityCalc.Session

variable {s t : Session} {r : Request} {symbol : String} {value : Quantity} {id : Nat}
  {system : UnitSystem}

/-- A change of what a name is bound to, as commands ask for it. -/
inductive Request where
  /-- Declares a variable. -/
  | define (path : String) (value : Quantity)
  /-- Assigns to a variable, or declares one. -/
  | assign (path : String) (value : Quantity)
  /-- Declares a unit. -/
  | unit (symbol : String) (value : Quantity)
  /-- Declares a namespace. -/
  | space (path : String)
  /-- Binds a function. -/
  | function (f : UserFunction)
  /-- Removes a name. -/
  | remove (path : String)

namespace Request

/-- Makes or refuses the change, step by step. -/
def make : Request → Action Unit
  | define path value => Session.define path value
  | assign path value => Session.assign path value
  | unit symbol value => declareUnit symbol value
  | space path => do
    let _ ← declareNamespace path
    return
  | function f => registerFunction f
  | remove path => do
    let _ ← Session.remove path
    return

/-- Whether a unit is asked for that can be registered, but whose symbol is bound already in the
current scope. -/
def Splits (s : Session) : Request → Prop
  | unit symbol value =>
    (∃ id system, s.system.declare symbol value = (.ok id, system)) ∧
      ∃ item, s.item? s.current symbol = some item
  | _ => False

/-! ## Changes that are made or refused as a whole -/

theorem eq_of_update_refused {α : Type} (f : Session → Except Error (α × Session)) (s : Session) :
    ∃ x t, (Action.update f).outcome s = .ok (x, t) ∧ ∀ e, x = .error e → t = s := by
  rw [Action.outcome_update]
  cases f s with
  | ok x => exact ⟨.ok x.1, x.2, rfl, nofun⟩
  | error e => exact ⟨.error e, s, rfl, fun _ _ => rfl⟩

theorem eq_of_refused_of_change {m : Action Unit} {f : Session → Except Error Session}
    (hm : m = Action.change f) (s : Session) :
    ∃ x t, m.outcome s = .ok (x, t) ∧ ∀ e, x = .error e → t = s :=
  hm ▸ eq_of_update_refused _ s

/-- What a change tells does not matter. -/
theorem eq_of_refused_of_update {α : Type} {m : Action α}
    {f : Session → Except Error (α × Session)} (hm : m = Action.update f) (s : Session) :
    ∃ x t, Action.outcome (do let _ ← m; return) s = .ok (x, t) ∧ ∀ e, x = .error e → t = s := by
  obtain ⟨x, t, h, ht⟩ := eq_of_update_refused f s
  rw [Action.outcome_bind, hm, h]
  cases x with
  | ok a => exact ⟨.ok (), t, rfl, nofun⟩
  | error e => exact ⟨.error e, t, rfl, fun _ _ => ht e rfl⟩

/-! ## Declarations of units -/

theorem bind_of_bound {p : Nat} {name : String} {item item' : Item}
    (h : s.item? p name = some item) (hitem' : item'.isVar = false) :
    s.afterBind p name item' = .error (.declaration (.alreadyDeclared name)) := by
  simp only [afterBind, h, hitem', Bool.and_false, Bool.false_eq_true, if_false]

theorem item?_with_system {p : Nat} {name : String} {item : Item}
    (h : s.item? p name = some item) : { s with system := system }.item? p name = some item :=
  h

/-- The outcome of declaring a unit that can be registered is that of binding its symbol. -/
theorem outcome_declareUnit_of_declare (h : s.system.declare symbol value = (.ok id, system)) :
    (declareUnit symbol value).outcome s =
      match { s with system := system }.afterBind s.current symbol (.unit id) with
      | .ok t => .ok (.ok (), t)
      | .error e => .ok (.error e, { s with system := system }) := by
  have hregister : s.afterRegisterUnit symbol value = .ok (id, { s with system := system }) := by
    simp only [afterRegisterUnit, h]
  rw [declareUnit_eq_changes, Action.outcome_bind, Action.outcome_update, hregister]
  exact Action.outcome_change _ _

/-- A unit is declared or refused as a whole, unless the request splits. -/
theorem eq_of_declareUnit_refused (hsplits : ¬(unit symbol value).Splits s) :
    ∃ x t, (declareUnit symbol value).outcome s = .ok (x, t) ∧ ∀ e, x = .error e → t = s := by
  rcases h : s.system.declare symbol value with ⟨e | id, system⟩
  · refine ⟨.error (.unit e), s, ?_, fun _ _ => rfl⟩
    simp only [declareUnit_eq_changes, Action.outcome_bind, Action.outcome_update,
      afterRegisterUnit, h]
  · have hnone : { s with system := system }.item? s.current symbol = none :=
      Option.eq_none_iff_forall_ne_some.2 fun item hitem => hsplits ⟨⟨id, system, h⟩, item, hitem⟩
    have hbind : { s with system := system }.afterBind s.current symbol (.unit id) =
        .ok ({ s with system := system }.insert s.current symbol (.unit id)) := by
      simp only [afterBind, hnone]
    rw [outcome_declareUnit_of_declare h, hbind]
    exact ⟨.ok (), _, rfl, fun _ heq => by cases heq⟩

/-- A unit that is registered has a new symbol, and that cannot be declared again. -/
theorem duplicate_of_declare {system' : UnitSystem}
    (h : system.declare symbol value = (.ok id, system')) (q : Quantity) :
    system.idOf? symbol = none ∧
      system'.declare symbol q = (.error (.duplicate symbol), system') := by
  obtain ⟨hsymbol, d, hnew, rfl, -, rfl, -⟩ := UnitSystem.eq_push_of_declare h
  refine ⟨hnew, UnitSystem.add_of_outcome (.declaration _ q) _ ?_ rfl⟩
  rcases Registry.outcome_declare (system.push d hnew).toRegistry d.symbol q with
    ⟨-, d', heq, hrun, -⟩ | ⟨hnot, -⟩
  · refine hrun.trans ?_
    rw [Registry.outcome_register, heq, UnitSystem.idOf?_push_symbol]
  · exact absurd hsymbol hnot

/-! ## Requests -/

/-- **A request is made, or it is refused and changes nothing**, unless it splits. Then it is
refused because its symbol is bound, all that it has changed is the system of units, and from now on
the symbol is refused as a duplicate. -/
theorem eq_of_refused (s : Session) (r : Request) :
    ∃ x t, r.make.outcome s = .ok (x, t) ∧ (¬r.Splits s → ∀ e, x = .error e → t = s) ∧
      (r.Splits s → ∃ symbol value id system, r = .unit symbol value ∧
        s.system.declare symbol value = (.ok id, system) ∧
        x = .error (.declaration (.alreadyDeclared symbol)) ∧ t = { s with system := system } ∧
        s.system.idOf? symbol = none ∧
        ∀ q, t.system.declare symbol q = (.error (.duplicate symbol), t.system)) := by
  have hwhole {m : Action Unit} (h : ∃ x t, m.outcome s = .ok (x, t) ∧ ∀ e, x = .error e → t = s)
      {P : Except Error Unit → Session → Prop} :
      ∃ x t, m.outcome s = .ok (x, t) ∧ (¬False → ∀ e, x = .error e → t = s) ∧
        (False → P x t) := by
    obtain ⟨x, t, h, ht⟩ := h
    exact ⟨x, t, h, fun _ => ht, False.elim⟩
  -- the steps of the first five are those of a change as a whole: their checks come first
  cases r with
  | define path value => exact hwhole (eq_of_refused_of_change (define_eq_change path value) s)
  | assign path value => exact hwhole (eq_of_refused_of_change (assign_eq_change path value) s)
  | space path => exact hwhole (eq_of_refused_of_update (declareNamespace_eq_update path) s)
  | function f => exact hwhole (eq_of_refused_of_change (registerFunction_eq_change f) s)
  | remove path => exact hwhole (eq_of_refused_of_update (remove_eq_update path) s)
  | unit symbol value =>
    by_cases hsplits : (unit symbol value).Splits s
    · have hsplits' := hsplits
      obtain ⟨⟨id, system, h⟩, item, hitem⟩ := hsplits'
      have hduplicate := duplicate_of_declare h
      refine ⟨_, { s with system := system }, ?_, fun h => absurd hsplits h, fun _ =>
        ⟨symbol, value, id, system, rfl, h, rfl, rfl, (hduplicate value).1,
          fun q => (hduplicate q).2⟩⟩
      rw [make, outcome_declareUnit_of_declare h, bind_of_bound (item?_with_system hitem) rfl]
    · obtain ⟨x, t, h, ht⟩ := eq_of_declareUnit_refused hsplits
      exact ⟨x, t, h, fun _ => ht, fun h => absurd h hsplits⟩

end Request

/-- A session with a variable `x`. -/
def withVariable : Session := (start {} .unknown).insert global "x" (.var (.plain 5))

theorem reachable_withVariable : Reachable [] withVariable := by
  have hnone : (start {} .unknown).item? global "x" = none := item?_start (by decide)
  have htarget : (start {} .unknown).target "x" = .ok (global, "x") := rfl
  have hdefine : (start {} .unknown).afterDefine "x" (.plain 5) = .ok withVariable := by
    rw [afterDefine, htarget]
    change (start {} .unknown).afterBind global "x" (.var (.plain 5)) = _
    simp only [afterBind, hnone]
    rfl
  exact (Reachable.start {} .unknown).step
    (.define "x" (.plain 5) ((outcome_define_eq_ok ..).2 hdefine))

/-- The unit `x` is refused in a session with a variable `x`, and yet it is registered. -/
theorem changed_by_refused : ¬∀ {fs : List Frame} {s t : Session} {r : Request} {e : Error},
    Reachable fs s → r.make.outcome s = .ok (.error e, t) → t = s := by
  have hdeclare : ∃ id system,
      withVariable.system.declare "x" (.plain 3) = (.ok id, system) := by
    have hnew : UnitSystem.international.idOf?
        (Registration.declaration "x" (.plain 3)).symbol = none := by
      simp [Registration.symbol, UnitSystem.idOf?_international, UnitSystem.baseUnits,
        UnitSystem.derivedUnits, UnitSystem.convertibleUnits, UnitSystem.scaledUnits]
    rcases Registry.outcome_run UnitSystem.international.toRegistry (.declaration "x" (.plain 3))
      with ⟨d, hsymbol, -, -, hrun⟩ | ⟨e, hrefused, -⟩
    · have hd : UnitSystem.international.idOf? d.symbol = none := hsymbol ▸ hnew
      exact ⟨_, _, UnitSystem.add_of_outcome (.declaration "x" (.plain 3))
        (UnitSystem.international.push d hd) hrun rfl⟩
    · have hletters : IsSymbol "x" := ⟨by decide, List.all_eq_true.1 (by decide)⟩
      rcases hrefused with hregistered | hnot
      · exact absurd hnew hregistered
      · exact absurd hletters hnot
  obtain ⟨id, system, hdeclare⟩ := hdeclare
  intro h
  have hbound : withVariable.item? withVariable.current "x" = some (.var (.plain 5)) :=
    item?_insert_self (s := start {} .unknown) Nat.one_pos
  have hmake : (Request.unit "x" (.plain 3)).make.outcome withVariable =
      .ok (.error (.declaration (.alreadyDeclared "x")),
        { withVariable with system := system }) := by
    rw [Request.make, Request.outcome_declareUnit_of_declare hdeclare,
      Request.bind_of_bound (Request.item?_with_system hbound) rfl]
  have hsystem : system = withVariable.system :=
    congrArg Session.system (h reachable_withVariable hmake)
  have hduplicate := (Request.duplicate_of_declare hdeclare (.plain 3)).2
  rw [hsystem, hdeclare] at hduplicate
  cases hduplicate

end QuantityCalc.Session
