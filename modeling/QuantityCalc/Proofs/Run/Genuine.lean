import QuantityCalc.Proofs.Run.Outcome

/-!
# Genuine errors

An error is genuine if something outside of the evaluation is to blame for it: it is no breach.
`Meets P r` says that an outcome is a genuine error or has a value with the property `P`, and
`Run.Grants`, `Action.Grants` and `Reading.Grants` say it of whatever a step leads to, in any
session. `Reading.Grants P c` is about reading on from the place `c`: in addition, what is left is
an end of the text. The properties of the parts of a step are put together as the parts are.
-/

namespace QuantityCalc

variable {α β ε : Type}

/-- Whether an error is no breach. -/
def Error.Genuine (e : Error) : Prop := ∀ breach, e ≠ .internal breach

/-- To shift an error does not make a breach of it. -/
theorem Error.Genuine.shift {e : Error} (h : e.Genuine) (n : Nat) : (e.shift n).Genuine := by
  intro breach
  cases e with
  | internal b => exact absurd rfl (h b)
  | _ => nofun

/-- An outcome is a genuine error, or its value has a property. -/
def Meets (P : α → Prop) : Except Error α → Prop
  | .ok a => P a
  | .error e => e.Genuine

namespace Meets

variable {P P' : α → Prop} {Q : β → Prop} {r : Except Error α}

theorem mono (h : Meets P r) (hP : ∀ a, P a → P' a) : Meets P' r := by
  cases r with
  | ok a => exact hP a h
  | error e => exact h

/-- The second of two steps is asked only about values that the first can yield. -/
theorem bind {f : α → Except Error β} (h : Meets P r) (hf : ∀ a, P a → Meets Q (f a)) :
    Meets Q (r >>= f) := by
  cases r with
  | ok a => exact hf a h
  | error e => exact h

theorem shift (h : Meets P r) (n : Nat) : Meets P (r.mapError (·.shift n)) := by
  cases r with
  | ok a => exact h
  | error e => exact Error.Genuine.shift h n

/-- A change of errors into genuine ones rules out breaches, whatever they were. -/
theorem mapError {r : Except ε α} {f : ε → Error} (hf : ∀ e, (f e).Genuine) :
    Meets (fun _ => True) (r.mapError f) := by
  cases r with
  | ok a => exact trivial
  | error e => exact hf e

end Meets

/-! ## Steps of a session -/

/-- Whatever a step leads to has a property. -/
def Run.Grants (P : α → Prop) (m : Run α) : Prop :=
  ∀ ⦃s : Session⦄ ⦃a : α⦄ ⦃t : Session⦄, m.outcome s = .ok (a, t) → P a

namespace Run.Grants

variable {P P' : α → Prop} {Q : β → Prop} {m : Run α}

theorem mono (h : Run.Grants P m) (hP : ∀ a, P a → P' a) : Run.Grants P' m :=
  fun _ a _ hm => hP a (h hm)

theorem pure {a : α} (h : P a) : Run.Grants P (Pure.pure a) :=
  fun _ _ _ hm => by cases hm; exact h

/-- The second step is asked only about what the first leads to, in whatever session it ends. -/
theorem bind {f : α → Run β} (h : Run.Grants P m) (hf : ∀ a, P a → Run.Grants Q (f a)) :
    Run.Grants Q (m >>= f) := by
  intro s b u hm
  rw [outcome_bind] at hm
  rcases hout : m.outcome s with e | ⟨a, t⟩
  · rw [hout] at hm
    cases hm
  · rw [hout] at hm
    exact hf a (h hout) hm

/-- A step that cannot fail has no error to be blamed for. -/
theorem any (m : Run α) : Run.Grants (fun _ => True) m := fun _ _ _ _ => trivial

end Run.Grants

/-- Whatever a step leads to is a genuine error or has a value with a property. -/
def Action.Grants (P : α → Prop) (m : Action α) : Prop := Run.Grants (Meets P) m.run

namespace Action.Grants

variable {P P' : α → Prop} {Q : β → Prop} {m : Action α}

theorem mono (h : Action.Grants P m) (hP : ∀ a, P a → P' a) : Action.Grants P' m :=
  Run.Grants.mono h fun _ hr => hr.mono hP

theorem pure {a : α} (h : P a) : Action.Grants P (Pure.pure a) :=
  Run.Grants.pure (a := Except.ok a) h

theorem throw {e : Error} (h : e.Genuine) : Action.Grants P (MonadExcept.throw e) :=
  Run.Grants.pure (a := Except.error e) h

/-- An error of the first step is the error of both, so it is genuine, too. -/
theorem bind {f : α → Action β} (h : Action.Grants P m) (hf : ∀ a, P a → Action.Grants Q (f a)) :
    Action.Grants Q (m >>= f) := by
  refine Run.Grants.bind h fun r hr => ?_
  cases r with
  | ok a => exact hf a hr
  | error e => exact Run.Grants.pure (a := Except.error e) hr

theorem get_bind {f : Session → Action α} (h : ∀ s, Action.Grants P (f s)) :
    Action.Grants P (get >>= f) :=
  fun s _ _ hm => h s hm

theorem lift {m : Run α} (h : Run.Grants P m) : Action.Grants P (ExceptT.lift m) :=
  Run.Grants.bind h fun a ha => Run.Grants.pure (a := Except.ok a) ha

theorem liftExcept {r : Except Error α} (h : Meets P r) : Action.Grants P (liftExcept r) := by
  intro s r' t hm
  rw [Run.outcome_action, outcome_liftExcept] at hm
  cases hm
  exact h

theorem except {r : Except Error α} (h : Meets P r) : Action.Grants P (liftM r) := by
  intro s r' t hm
  rw [Run.outcome_action, outcome_except] at hm
  cases hm
  exact h

theorem modify (f : Session → Session) : Action.Grants (fun _ => True) (modify f) :=
  fun _ _ _ hm => by cases hm; exact trivial

theorem modifyGet {f : Session → α × Session} (h : ∀ s, P (f s).1) :
    Action.Grants P (modifyGet f) :=
  fun s _ _ hm => by cases hm; exact h s

/-- An update fails with the errors of its function, and otherwise has its value. -/
theorem update {f : Session → Except Error (α × Session)} (h : ∀ s, Meets (fun x => P x.1) (f s)) :
    Action.Grants P (Action.update f) := by
  intro s r t hm
  rw [Run.outcome_action, outcome_update] at hm
  rcases hf : f s with e | ⟨a, u⟩
  · rw [hf] at hm
    cases hm
    have he := h s
    rw [hf] at he
    exact he
  · rw [hf] at hm
    cases hm
    have ha := h s
    rw [hf] at ha
    exact ha

/-- A change fails with the errors of its function. -/
theorem change {f : Session → Except Error Session} (h : ∀ s, Meets (fun _ => True) (f s)) :
    Action.Grants (fun _ => True) (Action.change f) :=
  .update fun s => (h s).bind fun _ _ => trivial

end Action.Grants

/-! ## Reading -/

/-- Whatever reading on from a place leads to is a genuine error or has a value with a property of
the value and the place behind it; and the text behind that place is an end of the text. -/
def Reading.Grants (P : α → Cursor → Prop) (c : Cursor) (m : Reading α) : Prop :=
  Run.Grants (fun x => Meets (P · x.2) x.1 ∧ x.2.rest <:+ c.rest) (m.run c)

namespace Reading.Grants

variable {P P' : α → Cursor → Prop} {Q : β → Cursor → Prop} {c d : Cursor} {m : Reading α}

theorem mono (h : Reading.Grants P c m)
    (hP : ∀ a d, d.rest <:+ c.rest → P a d → P' a d) : Reading.Grants P' c m :=
  Run.Grants.mono h fun _ hx => ⟨hx.1.mono fun a => hP a _ hx.2, hx.2⟩

theorem pure {a : α} (h : P a c) : Reading.Grants P c (Pure.pure a) :=
  Run.Grants.pure (a := (Except.ok a, c)) ⟨h, List.suffix_refl _⟩

theorem throw {e : Error} (h : e.Genuine) : Reading.Grants P c (MonadExcept.throw e) :=
  Run.Grants.pure (a := (Except.error e, c)) ⟨h, List.suffix_refl _⟩

/-- A malformation of the text is genuine. -/
theorem malformed {position : Nat} {what : Malformation} :
    Reading.Grants P c (Reading.malformed position what) :=
  throw nofun

/-- An outcome that is known already leaves the reader where it is. -/
theorem liftExcept {r : Except Error α} (h : Meets (P · c) r) :
    Reading.Grants P c (liftExcept r) := by
  intro s x t hm
  rw [Run.outcome_reading, outcome_liftExcept] at hm
  cases hm
  exact ⟨h, List.suffix_refl _⟩

/-- A check fails with a malformation, which is genuine. -/
theorem check {position : Nat} {r : Except Malformation α} (h : ∀ a, r = .ok a → P a c) :
    Reading.Grants P c (Reading.check position r) := by
  refine liftExcept ?_
  cases r with
  | ok a => exact h a rfl
  | error what => exact nofun

/-- Reading on starts at an end of the text, so what is left then is one of the whole text. -/
theorem bind {f : α → Reading β} (h : Reading.Grants P c m)
    (hf : ∀ a d, d.rest <:+ c.rest → P a d → Reading.Grants Q d (f a)) :
    Reading.Grants Q c (m >>= f) := by
  change Run.Grants _
    (m.run c >>= fun x => (ExceptT.bindCont f x.1 : StateT Cursor Run (Except Error β)) x.2)
  refine Run.Grants.bind h fun ⟨r, d⟩ ⟨hr, hd⟩ => ?_
  cases r with
  | ok a => exact Run.Grants.mono (hf a d hd hr) fun _ hx => ⟨hx.1, hx.2.trans hd⟩
  | error e => exact Run.Grants.pure (a := (Except.error e, d)) ⟨hr, hd⟩

theorem get_bind {f : Cursor → Reading α} (h : Reading.Grants P c (f c)) :
    Reading.Grants P c (get >>= f) :=
  h

/-- The reader may look at the session, which is any session. -/
theorem session_bind {f : Session → Reading α} (h : ∀ s, Reading.Grants P c (f s)) :
    Reading.Grants P c (getThe Session >>= f) :=
  fun s _ _ hm => h s hm

/-- The reader may be moved to an end of what is left. -/
theorem set_bind {f : PUnit → Reading α} (hd : d.rest <:+ c.rest)
    (h : Reading.Grants P d (f ⟨⟩)) : Reading.Grants P c (set d >>= f) :=
  Run.Grants.mono (m := ((f ⟨⟩).run d)) h fun _ hx => ⟨hx.1, hx.2.trans hd⟩

/-- White space is in front of an end of what is left. -/
theorem skipBlanks_bind {f : PUnit → Reading α} (h : Reading.Grants P c.skipBlanks (f ⟨⟩)) :
    Reading.Grants P c (modify Cursor.skipBlanks >>= f) :=
  Run.Grants.mono (m := ((f ⟨⟩).run c.skipBlanks)) h fun _ hx =>
    ⟨hx.1, hx.2.trans (Text.trimStart_suffix c.rest)⟩

theorem lift_bind {m : Run α} {P : α → Prop} {f : α → Reading β} (h : Run.Grants P m)
    (hf : ∀ a, P a → Reading.Grants Q c (f a)) :
    Reading.Grants Q c (ExceptT.lift (StateT.lift m) >>= f) := by
  intro s x t hm
  rw [Run.outcome_reading, outcome_bind, outcome_lift] at hm
  rcases hout : m.outcome s with e | ⟨a, u⟩
  · rw [hout] at hm
    cases hm
  · rw [hout] at hm
    exact hf a (h hout) hm

/-- An action reads nothing, so the place after it is the one before it. -/
theorem act {m : Action α} {P : α → Prop} (h : Action.Grants P m) :
    Reading.Grants (fun a d => P a ∧ d = c) c (Reading.act m) :=
  lift_bind h fun _ hr => liftExcept (hr.mono fun _ ha => ⟨ha, rfl⟩)

end Reading.Grants

end QuantityCalc
