import QuantityCalc.Expression.Operand

/-!
# Outcomes of steps

Steps of a session are functions of it. The outcome of a step is named here, with one equation for
each way in which steps are put together, so that a step is run by rewriting.
-/

namespace QuantityCalc

variable {α β : Type}

/-- What a step of a session leads to. -/
def Run.outcome (m : Run α) (s : Session) : Except Halt (α × Session) := m s

/-- What a step that may fail leads to. -/
def Action.outcome (m : Action α) (s : Session) : Except Halt (Except Error α × Session) := m s

/-- What reading at a place leads to. -/
def Reading.outcome (m : Reading α) (c : Cursor) (s : Session) :
    Except Halt ((Except Error α × Cursor) × Session) := m c s

/-- Two actions are the same if they lead to the same. -/
theorem Action.ext {m m' : Action α} (h : ∀ s, m.outcome s = m'.outcome s) : m = m' := funext h

namespace Run

/-- A step goes on from the session that the step before it left, unless the program halts there. -/
@[simp] theorem outcome_bind (m : Run α) (f : α → Run β) (s : Session) :
    outcome (m >>= f) s = match outcome m s with
      | .ok (a, t) => outcome (f a) t
      | .error h => .error h := by
  simp only [outcome, bind, StateT.bind, Except.bind]
  cases m s <;> rfl

@[simp] theorem outcome_map (f : α → β) (m : Run α) (s : Session) :
    outcome (f <$> m) s = match outcome m s with
      | .ok (a, t) => .ok (f a, t)
      | .error h => .error h := by
  rw [map_eq_pure_bind, outcome_bind]
  rfl

@[simp] theorem outcome_pure (a : α) (s : Session) : outcome (pure a : Run α) s = .ok (a, s) := rfl

@[simp] theorem outcome_throw (h : Halt) (s : Session) :
    outcome (throw h : Run α) s = .error h := rfl

@[simp] theorem outcome_get (s : Session) : outcome (get : Run Session) s = .ok (s, s) := rfl

/-- To look for a file changes nothing; the files may be out of reach. -/
theorem outcome_look (path : String) (s : Session) : outcome (look path) s =
    match s.files.look path with
    | .ok found => .ok (found, s)
    | .error h => .error h := by
  have hlook : outcome (look path) s = (s.files.look path).bind fun found => .ok (found, s) := rfl
  rw [hlook]
  cases s.files.look path <;> rfl

@[simp] theorem outcome_action (m : Action α) (s : Session) :
    outcome (ExceptT.run m) s = m.outcome s := rfl

@[simp] theorem outcome_reading (m : Reading α) (c : Cursor) (s : Session) :
    outcome (ExceptT.run m c) s = m.outcome c s := rfl

end Run

namespace Action

/-- An action goes on only after a value. An error ends it, with the session left as it was then. -/
@[simp] theorem outcome_bind (m : Action α) (f : α → Action β) (s : Session) :
    outcome (m >>= f) s = match outcome m s with
      | .ok (.ok a, t) => outcome (f a) t
      | .ok (.error e, t) => .ok (.error e, t)
      | .error h => .error h := by
  change Except.bind (m s) _ = _
  simp only [Except.bind, outcome]
  rcases m s with _ | ⟨_ | _, _⟩ <;> rfl

@[simp] theorem outcome_map (f : α → β) (m : Action α) (s : Session) :
    outcome (f <$> m) s = match outcome m s with
      | .ok (.ok a, t) => .ok (.ok (f a), t)
      | .ok (.error e, t) => .ok (.error e, t)
      | .error h => .error h := by
  rw [map_eq_pure_bind, outcome_bind]
  rfl

@[simp] theorem outcome_pure (a : α) (s : Session) :
    outcome (pure a : Action α) s = .ok (.ok a, s) := rfl

@[simp] theorem outcome_throw (e : Error) (s : Session) :
    outcome (throw e : Action α) s = .ok (.error e, s) := rfl

@[simp] theorem outcome_get (s : Session) : outcome (get : Action Session) s = .ok (.ok s, s) := rfl

@[simp] theorem outcome_set (s t : Session) :
    outcome (set t : Action PUnit) s = .ok (.ok ⟨⟩, t) := rfl

@[simp] theorem outcome_modify (f : Session → Session) (s : Session) :
    outcome (modify f : Action PUnit) s = .ok (.ok ⟨⟩, f s) := rfl

@[simp] theorem outcome_modifyGet (f : Session → α × Session) (s : Session) :
    outcome (modifyGet f : Action α) s = .ok (.ok (f s).1, (f s).2) := rfl

@[simp] theorem outcome_liftExcept (r : Except Error α) (s : Session) :
    outcome (liftExcept r : Action α) s = .ok (r, s) := by
  cases r <;> rfl

@[simp] theorem outcome_lift (m : Run α) (s : Session) :
    outcome (ExceptT.lift m) s = match m.outcome s with
      | .ok (a, t) => .ok (.ok a, t)
      | .error h => .error h := by
  change Except.bind (m s) _ = _
  simp only [Except.bind, Run.outcome]
  cases m s <;> rfl

@[simp] theorem outcome_liftM (m : Run α) (s : Session) :
    outcome (liftM m) s = match m.outcome s with
      | .ok (a, t) => .ok (.ok a, t)
      | .error h => .error h := outcome_lift m s

@[simp] theorem outcome_except (r : Except Error α) (s : Session) :
    outcome (liftM r : Action α) s = .ok (r, s) := by
  cases r <;> rfl

/-- A change of the session that is made as a whole or refused as a whole. -/
def update (f : Session → Except Error (α × Session)) : Action α := do
  let (a, s) ← f (← get)
  set s
  return a

/-- An update leaves the session as it is when it fails. Actions that do more before they fail are
made of several steps. -/
@[simp] theorem outcome_update (f : Session → Except Error (α × Session)) (s : Session) :
    outcome (update f) s = match f s with
      | .ok (a, t) => .ok (.ok a, t)
      | .error e => .ok (.error e, s) := by
  simp only [update, outcome_bind, outcome_get, outcome_except, outcome_set, outcome_pure]
  cases f s <;> rfl

theorem outcome_update_eq_ok {f : Session → Except Error (α × Session)} {a : α} {s t : Session} :
    (update f).outcome s = .ok (.ok a, t) ↔ f s = .ok (a, t) := by
  rw [outcome_update]
  rcases f s with e | ⟨b, u⟩ <;> simp

/-- A change of the session without a result. -/
def change (f : Session → Except Error Session) : Action Unit :=
  update fun s => do return ((), ← f s)

@[simp] theorem outcome_change (f : Session → Except Error Session) (s : Session) :
    outcome (change f) s = match f s with
      | .ok t => .ok (.ok (), t)
      | .error e => .ok (.error e, s) := by
  rw [change, outcome_update]
  cases f s <;> rfl

theorem outcome_change_eq_ok {f : Session → Except Error Session} {s t : Session} :
    (change f).outcome s = .ok (.ok (), t) ↔ f s = .ok t := by
  rw [outcome_change]
  cases f s <;> simp

/-- A change that is refused leaves the session as it was. -/
theorem eq_of_outcome_change {f : Session → Except Error Session} {r : Except Error Unit}
    {s t : Session} (h : (change f).outcome s = .ok (r, t)) :
    r = .ok () ∧ f s = .ok t ∨ ∃ e, r = .error e ∧ f s = .error e ∧ t = s := by
  rw [outcome_change] at h
  cases hf : f s with
  | ok u =>
    rw [hf] at h
    cases h
    exact .inl ⟨rfl, rfl⟩
  | error e =>
    rw [hf] at h
    cases h
    exact .inr ⟨e, rfl, rfl, rfl⟩

end Action

namespace Reading

/-- A reader goes on only after a value, from the place that was reached. -/
@[simp] theorem outcome_bind (m : Reading α) (f : α → Reading β) (c : Cursor) (s : Session) :
    outcome (m >>= f) c s = match outcome m c s with
      | .ok ((.ok a, d), t) => outcome (f a) d t
      | .ok ((.error e, d), t) => .ok ((.error e, d), t)
      | .error h => .error h := by
  change Except.bind (m c s) _ = _
  simp only [Except.bind, outcome]
  rcases m c s with _ | ⟨⟨_ | _, _⟩, _⟩ <;> rfl

@[simp] theorem outcome_map (f : α → β) (m : Reading α) (c : Cursor) (s : Session) :
    outcome (f <$> m) c s = match outcome m c s with
      | .ok ((.ok a, d), t) => .ok ((.ok (f a), d), t)
      | .ok ((.error e, d), t) => .ok ((.error e, d), t)
      | .error h => .error h := by
  rw [map_eq_pure_bind, outcome_bind]
  rfl

@[simp] theorem outcome_pure (a : α) (c : Cursor) (s : Session) :
    outcome (pure a : Reading α) c s = .ok ((.ok a, c), s) := rfl

@[simp] theorem outcome_throw (e : Error) (c : Cursor) (s : Session) :
    outcome (throw e : Reading α) c s = .ok ((.error e, c), s) := rfl

@[simp] theorem outcome_get (c : Cursor) (s : Session) :
    outcome (get : Reading Cursor) c s = .ok ((.ok c, c), s) := rfl

@[simp] theorem outcome_set (c d : Cursor) (s : Session) :
    outcome (set d : Reading PUnit) c s = .ok ((.ok ⟨⟩, d), s) := rfl

@[simp] theorem outcome_modify (f : Cursor → Cursor) (c : Cursor) (s : Session) :
    outcome (modify f : Reading PUnit) c s = .ok ((.ok ⟨⟩, f c), s) := rfl

@[simp] theorem outcome_session (c : Cursor) (s : Session) :
    outcome (getThe Session : Reading Session) c s = .ok ((.ok s, c), s) := rfl

@[simp] theorem outcome_liftExcept (r : Except Error α) (c : Cursor) (s : Session) :
    outcome (liftExcept r : Reading α) c s = .ok ((r, c), s) := by
  cases r <;> rfl

/-- A check of what is behind the reader reports the place it is given. -/
@[simp] theorem outcome_check (position : Nat) (r : Except Malformation α) (c : Cursor)
    (s : Session) :
    outcome (check position r) c s = .ok ((r.mapError (Error.malformed position), c), s) :=
  outcome_liftExcept _ c s

@[simp] theorem outcome_lift (m : Run α) (c : Cursor) (s : Session) :
    outcome (ExceptT.lift (StateT.lift m)) c s = match m.outcome s with
      | .ok (a, t) => .ok ((.ok a, c), t)
      | .error h => .error h := by
  change Except.bind (Except.bind (m s) _) _ = _
  simp only [Except.bind, Run.outcome]
  cases m s <;> rfl

@[simp] theorem outcome_liftM (m : Run α) (c : Cursor) (s : Session) :
    outcome (liftM m) c s = match m.outcome s with
      | .ok (a, t) => .ok ((.ok a, c), t)
      | .error h => .error h := outcome_lift m c s

end Reading

end QuantityCalc
