import QuantityCalc.Proofs.Run.Genuine
import QuantityCalc.Proofs.Session.Changes
import QuantityCalc.Session.Calls

/-!
# Errors of sessions

The errors of built-in functions are genuine. Those of binding names and of binding arguments are
plain: they are genuine, and they tell no places of the line.
-/

namespace QuantityCalc

variable {α β : Type}

namespace Builtin

/-- The least and the greatest of some quantities are found unless two cannot be compared. -/
theorem meets_extreme (beats : Ordering) (q : Quantity) (qs : List Quantity) :
    Meets (fun _ => True) (extreme beats q qs) := by
  induction qs generalizing q with
  | nil => trivial
  | cons p qs ih =>
    refine .bind (.mapError fun _ => nofun) fun order _ => ?_
    split
    · exact ih p
    · exact ih q

/-- No built-in function fails with a breach, whatever the arguments are. -/
theorem meets_apply (f : Builtin) (q : Quantity) (qs : List Quantity) :
    Meets (fun _ => True) (f.apply q qs) := by
  have hplain (g : Float → Float) : Meets (fun _ => True) (ofPlain g q) := by
    unfold ofPlain
    split
    · trivial
    · exact nofun
  cases f with
  | abs | round | floor | ceil => trivial
  | sqrt => exact .mapError fun _ => nofun
  | min => exact meets_extreme .lt q qs
  | max => exact meets_extreme .gt q qs
  | _ => exact hplain _

/-- A call with the wrong number of arguments fails with an error of its own. -/
theorem meets_call (f : Builtin) (args : List Quantity) :
    Meets (fun _ => True) (f.call args) := by
  unfold call
  split
  · split
    · exact meets_apply f _ _
    · exact nofun
  · exact nofun

end Builtin

/-! ## Errors of names -/

/-- Whether an error tells nothing of the text of a line: a name, a declaration or a unit is
wrong. -/
def Error.Plain : Error → Prop
  | .unexpectedChar .. | .invalidNumber .. | .malformed .. | .unterminated .. | .internal _ => False
  | _ => True

/-- An outcome is a value or a plain error. -/
def Plainly : Except Error α → Prop
  | .ok _ => True
  | .error e => e.Plain

/-- A plain error is genuine. -/
theorem Error.Plain.genuine {e : Error} (h : e.Plain) : e.Genuine := by
  rintro breach rfl
  exact h

namespace Plainly

variable {r : Except Error α}

theorem meets (h : Plainly r) : Meets (fun _ => True) r := by
  cases r with
  | ok a => trivial
  | error e => exact Error.Plain.genuine h

/-- Two steps that fail with plain errors only are one. -/
theorem bind {f : α → Except Error β} (h : Plainly r) (hf : ∀ a, Plainly (f a)) :
    Plainly (r >>= f) := by
  cases r with
  | ok a => exact hf a
  | error e => exact h

theorem map (h : Plainly r) (f : α → β) : Plainly (r.map f) := by
  cases r with
  | ok a => trivial
  | error e => exact h

/-- Errors of units are plain. -/
theorem unit (r : Except UnitError α) : Plainly (r.mapError .unit) := by
  cases r with
  | ok a => trivial
  | error e => trivial

end Plainly

namespace Session

variable (s : Session) (path : String) (value : Quantity)

/-- A name that is not bound, or to no namespace, is a plain error. -/
theorem plainly_scopeOf (name : String) (item? : Option Item) : Plainly (scopeOf name item?) := by
  unfold scopeOf
  split
  · trivial
  · trivial

/-- A path fails at the first name that leads nowhere. -/
theorem plainly_foldlM (inner : List String) (p : Nat) :
    Plainly (inner.foldlM (fun scope name => scopeOf name (s.item? scope name)) p) := by
  induction inner generalizing p with
  | nil => trivial
  | cons name inner ih => exact (plainly_scopeOf _ _).bind fun q => ih q

/-- Whatever is wrong with a path is a plain error. -/
theorem plainly_target : Plainly (s.target path) := by
  unfold target
  split
  · trivial
  · refine (plainly_scopeOf _ _).bind fun scope => ?_
    exact (plainly_foldlM s _ scope).bind fun _ => trivial

/-- To bind a name fails if the name is taken, unless one variable takes the place of another. -/
theorem plainly_bind (scope : Nat) (name : String) (item : Item) :
    Plainly (s.afterBind scope name item) := by
  unfold afterBind
  split
  · split
    · trivial
    · trivial
  · trivial

theorem plainly_define : Plainly (s.afterDefine path value) :=
  (plainly_target s path).bind fun _ => plainly_bind s _ _ _

theorem plainly_assign : Plainly (s.afterAssign path value) := by
  unfold afterAssign
  split
  · exact plainly_define s path value
  · split
    · trivial
    · trivial
    · trivial

/-- To register a unit fails with an error of units. -/
theorem plainly_registerUnit (symbol : String) : Plainly (s.afterRegisterUnit symbol value) := by
  unfold afterRegisterUnit
  split
  · trivial
  · trivial

theorem plainly_declareNamespace : Plainly (s.afterDeclareNamespace path) := by
  refine (plainly_target s path).bind fun x => ?_
  simp only
  split
  · trivial
  · exact (plainly_bind s _ _ _).bind fun _ => trivial

theorem plainly_registerFunction (f : UserFunction) : Plainly (s.afterRegisterFunction f) := by
  unfold afterRegisterFunction
  split
  · split
    · trivial
    · trivial
  · trivial

theorem plainly_remove : Plainly (s.afterRemove path) := by
  have hscope : Plainly (s.scopeToClear path) := by
    unfold scopeToClear
    split
    · exact (plainly_target s path).map _
    · split
      · trivial
      · trivial
  refine hscope.bind fun scope => ?_
  split
  · trivial
  · trivial
  · trivial

/-- Too few arguments, too many, and units that do not fit the parameters are plain errors. -/
theorem plainly_bindArguments (f : UserFunction) (ps : List Parameter) (qs : List Quantity) :
    Plainly (s.bindArguments f ps qs) := by
  induction ps generalizing qs with
  | nil => cases qs <;> trivial
  | cons p ps ih =>
    cases qs with
    | nil => trivial
    | cons q qs =>
      have hrest (value : Quantity) :
          Plainly (s.bindArguments f ps qs >>= fun rest => pure ((p.name, value) :: rest)) :=
        (ih qs).bind fun _ => trivial
      rw [bindArguments]
      split
      · exact hrest q
      · refine (Plainly.unit _).bind fun target => ?_
        cases q.convert target with
        | ok value => exact hrest value
        | error e => trivial

/-! ## Changes -/

theorem grants_define : Action.Grants (fun _ => True) (define path value) := by
  rw [define_eq_change]
  exact .change fun s => (plainly_define s path value).meets

theorem grants_assign : Action.Grants (fun _ => True) (assign path value) := by
  rw [assign_eq_change]
  exact .change fun s => (plainly_assign s path value).meets

theorem grants_declareUnit (symbol : String) :
    Action.Grants (fun _ => True) (declareUnit symbol value) := by
  rw [declareUnit_eq_changes]
  refine .bind (P := fun _ => True) (.update fun s => ?_) fun id _ => .change fun s => ?_
  · exact (plainly_registerUnit s value symbol).meets
  · exact (plainly_bind s _ _ (.unit id)).meets

theorem grants_declareNamespace : Action.Grants (fun _ => True) (declareNamespace path) := by
  rw [declareNamespace_eq_update]
  exact .update fun s => (plainly_declareNamespace s path).meets

theorem grants_registerFunction (f : UserFunction) :
    Action.Grants (fun _ => True) (registerFunction f) := by
  rw [registerFunction_eq_change]
  exact .change fun s => (plainly_registerFunction s f).meets

theorem grants_remove : Action.Grants (fun _ => True) (remove path) := by
  rw [remove_eq_update]
  exact .update fun s => (plainly_remove s path).meets

end Session

end QuantityCalc
