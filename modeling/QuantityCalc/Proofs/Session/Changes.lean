import QuantityCalc.Proofs.Except
import QuantityCalc.Proofs.Run.Outcome
import QuantityCalc.Proofs.Unit.Registration
import QuantityCalc.Session.Bindings

/-!
# Changes as a whole

What names are bound to is changed step by step, and a step may fail. Here each change is also
written as one function of the session, which gives an error or the session afterwards, and the
steps are shown to lead to the same (`define_eq_change` and its neighbours): an error comes before
anything is changed. The declaration of a unit is not such a change but two of them, one after the
other (`declareUnit_eq_changes`), and the second one may be refused.
-/

namespace QuantityCalc.Session

variable (s : Session) (path : String) (value : Quantity)

/-- The session with a name bound in a scope, unless that is refused. -/
def afterBind (scope : Nat) (name : String) (item : Item) : Except Error Session :=
  match s.item? scope name with
  | some existing =>
    if existing.isVar && item.isVar then .ok (s.insert scope name item)
    else .error (.declaration (.alreadyDeclared name))
  | none => .ok (s.insert scope name item)

/-- The session after the declaration of a variable. -/
def afterDefine : Except Error Session := do
  let (scope, name) ← s.target path
  s.afterBind scope name (.var value)

/-- The session after an assignment. -/
def afterAssign : Except Error Session :=
  if isDotted path then s.afterDefine path value
  else
    match s.find? path with
    | some (scope, .var _) => .ok (s.insert scope path (.var value))
    | some (_, item) => .error (.evaluation (.notAssignable item.kind path))
    | none => .ok (s.insert s.current path (.var value))

/-- The index of a new unit, and the session after its registration. -/
def afterRegisterUnit (symbol : String) (value : Quantity) : Except Error (Nat × Session) :=
  match s.system.declare symbol value with
  | (.ok id, system) => .ok (id, { s with system := system })
  | (.error e, _) => .error (.unit e)

/-- The scope of a new namespace, and the session after its declaration. -/
def afterDeclareNamespace : Except Error (Nat × Session) := do
  let (parent, name) ← s.target path
  if parent < s.floor then .error (.declaration (.outlivesCall path))
  else
    let t ← s.afterBind parent name (.space s.scopes.size)
    return (s.scopes.size,
      { t with scopes := t.scopes.push { name := name, parent? := some parent } })

/-- The session after the declaration of a function. -/
def afterRegisterFunction (f : UserFunction) : Except Error Session :=
  match s.item? s.current f.name with
  | some existing =>
    if existing.isFunction then .ok (s.insert s.current f.name (.function f s.current))
    else .error (.declaration (.alreadyDeclared f.name))
  | none => .ok (s.insert s.current f.name (.function f s.current))

/-- What a name was bound to, and the session after its removal. -/
def afterRemove : Except Error (Item × Session) := do
  let scope ← s.scopeToClear path
  match s.item? scope (lastSegment path) with
  | none => .error (.unknownName path)
  | some .unitSystem => .error (.evaluation (.activeSystem (lastSegment path)))
  | some item => return (item, s.erase scope (lastSegment path))

theorem bind_eq_change (scope : Nat) (name : String) (item : Item) :
    bind scope name item = Action.change (·.afterBind scope name item) := by
  refine Action.ext fun s => ?_
  simp only [bind, afterBind, Action.outcome_change, Action.outcome_bind, Action.outcome_get]
  cases s.item? scope name with
  | none => rfl
  | some existing =>
    cases hvar : existing.isVar && item.isVar <;> simp [hvar]

theorem define_eq_change : define path value = Action.change (·.afterDefine path value) := by
  refine Action.ext fun s => ?_
  simp only [define, afterDefine, Action.outcome_change, Action.outcome_bind, Action.outcome_get,
    Action.outcome_liftExcept, bind_eq_change]
  cases s.target path <;> rfl

theorem outcome_define_eq_ok {t : Session} :
    (define path value).outcome s = .ok (.ok (), t) ↔ s.afterDefine path value = .ok t := by
  rw [define_eq_change, Action.outcome_change_eq_ok]

theorem assign_eq_change : assign path value = Action.change (·.afterAssign path value) := by
  refine Action.ext fun s => ?_
  simp only [assign, afterAssign, Action.outcome_change]
  cases isDotted path with
  | true => simp only [if_true, define_eq_change, Action.outcome_change]
  | false =>
    simp only [Bool.false_eq_true, if_false, Action.outcome_bind, Action.outcome_get]
    rcases s.find? path with _ | ⟨scope, _ | _ | _ | _ | _⟩ <;> rfl

theorem outcome_assign_eq_ok {t : Session} :
    (assign path value).outcome s = .ok (.ok (), t) ↔ s.afterAssign path value = .ok t := by
  rw [assign_eq_change, Action.outcome_change_eq_ok]

theorem registerUnit_eq_update (symbol : String) :
    registerUnit symbol value = Action.update (·.afterRegisterUnit symbol value) := by
  refine Action.ext fun s => ?_
  simp only [registerUnit, afterRegisterUnit, Action.outcome_update, Action.outcome_bind,
    Action.outcome_get, Action.outcome_modify, Action.outcome_liftExcept]
  rcases hdeclare : s.system.declare symbol value with ⟨_ | id, system⟩
  · rw [UnitSystem.eq_of_add_error hdeclare]
    rfl
  · rfl

theorem declareUnit_eq_changes (symbol : String) :
    declareUnit symbol value = (do
      let id ← Action.update (·.afterRegisterUnit symbol value)
      Action.change fun s => s.afterBind s.current symbol (.unit id)) := by
  refine Action.ext fun s => ?_
  simp only [declareUnit, registerUnit_eq_update, Action.outcome_bind, Action.outcome_update,
    Action.outcome_get, bind_eq_change, Action.outcome_change]

theorem declareNamespace_eq_update :
    declareNamespace path = Action.update (·.afterDeclareNamespace path) := by
  refine Action.ext fun s => ?_
  simp only [declareNamespace, afterDeclareNamespace, Action.outcome_update, Action.outcome_bind,
    Action.outcome_get, Action.outcome_liftExcept, bind_eq_change]
  rcases s.target path with e | ⟨parent, name⟩
  · rfl
  · rw [Except.ok_bind]
    by_cases hfloor : parent < s.floor
    · simp only [hfloor, if_true, Action.outcome_bind, Action.outcome_throw]
    · simp only [hfloor, if_false, Action.outcome_bind, Action.outcome_get, Action.outcome_change]
      cases s.afterBind parent name (.space s.scopes.size) <;> rfl

theorem outcome_declareNamespace_eq_ok {id : Nat} {t : Session} :
    (declareNamespace path).outcome s = .ok (.ok id, t) ↔
      s.afterDeclareNamespace path = .ok (id, t) := by
  rw [declareNamespace_eq_update, Action.outcome_update_eq_ok]

theorem registerFunction_eq_change (f : UserFunction) :
    registerFunction f = Action.change (·.afterRegisterFunction f) := by
  refine Action.ext fun s => ?_
  simp only [registerFunction, afterRegisterFunction, Action.outcome_change, Action.outcome_bind,
    Action.outcome_get]
  cases s.item? s.current f.name with
  | none => rfl
  | some existing =>
    cases hfunction : existing.isFunction <;> simp [hfunction]

theorem outcome_registerFunction_eq_ok {f : UserFunction} {t : Session} :
    (registerFunction f).outcome s = .ok (.ok (), t) ↔ s.afterRegisterFunction f = .ok t := by
  rw [registerFunction_eq_change, Action.outcome_change_eq_ok]

theorem remove_eq_update : remove path = Action.update (·.afterRemove path) := by
  refine Action.ext fun s => ?_
  simp only [remove, afterRemove, Action.outcome_update, Action.outcome_bind, Action.outcome_get,
    Action.outcome_liftExcept]
  cases s.scopeToClear path with
  | error e => rfl
  | ok scope =>
    simp only [Bind.bind, Except.bind]
    rcases s.item? scope (lastSegment path) with _ | _ | _ | _ | _ | _ <;> rfl

end QuantityCalc.Session
