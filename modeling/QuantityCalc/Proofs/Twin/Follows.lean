import QuantityCalc.Proofs.Run.Conforms
import QuantityCalc.Proofs.Twin.Moves

/-!
# Steps on both sides

`Run.Follows A good s s' m m'` says that the step `m'` follows the step `m`, where `m` is made in
the session `s` and `m'` in the session `s'`, which is alike: if `m` leads to something good, `m'`
leads to the same, and the sessions behind them are alike; and `m'` halts where `m` does, unless the
accord excuses it. Nothing is said of `m'` if what `m` leads to is not good. For steps that may
fail, values are good, and errors are good if the accord includes them (`Accord.Accepts`).

The steps of which a step is put together follow those of which the other one is put together, one
after the other (`Run.Follows.bind`, `Action.Follows.bind`, `Reading.Follows.bind`).
-/

namespace QuantityCalc

variable {α β : Type} {A : Accord} {s s' : Session} {good : α → Prop} {good' : β → Prop}

/-- Whether an outcome has to be the outcome of both runs. -/
def Accord.Accepts (A : Accord) (r : Except Error α) : Prop := A.errors ∨ ∃ a, r = .ok a

theorem Accord.accepts_ok (a : α) : A.Accepts (.ok a : Except Error α) := Or.inr ⟨a, rfl⟩

/-- An error that has to be the outcome of both runs is one of an accord on errors. -/
theorem Accord.errors_of_accepts {e : Error} (h : A.Accepts (.error e : Except Error α)) :
    A.errors := by
  rcases h with h | ⟨a, heq⟩
  · exact h
  · cases heq

/-- What does not have to be the outcome of both runs is an error, and no error has to be. -/
theorem Accord.not_accepts {r : Except Error α} (h : ¬A.Accepts r) :
    ¬A.errors ∧ ∃ e, r = .error e := by
  cases r with
  | ok a => exact absurd (A.accepts_ok a) h
  | error e => exact ⟨fun herrors => h (Or.inl herrors), e, rfl⟩

/-- Without an accord on errors, no error has to be the outcome of both runs. -/
theorem Accord.not_accepts_error (h : ¬A.errors) (e : Error) :
    ¬A.Accepts (.error e : Except Error α) := fun haccepts => h (errors_of_accepts haccepts)

/-- A step of the second session follows a step of the first one. -/
def Run.Follows (A : Accord) (good : α → Prop) (s s' : Session) (m m' : Run α) : Prop :=
  match m.outcome s with
  | .ok (a, t) => good a → ∃ t', m'.outcome s' = .ok (a, t') ∧ Alike A t t'
  | .error h => A.excused h ∨ A.shared h ∧ m'.outcome s' = .error h

/-- A step that may fail follows another one. -/
def Action.Follows (A : Accord) (s s' : Session) (m m' : Action α) : Prop :=
  Run.Follows A A.Accepts s s' m.run m'.run

/-- At every place, reading in the second session follows reading in the first one. -/
def Reading.Follows (A : Accord) (s s' : Session) (m m' : Reading α) : Prop :=
  ∀ c, Run.Follows A (fun x => A.Accepts x.1) s s' (m.run c) (m'.run c)

namespace Run.Follows

variable {m m' : Run α}

/-- A step that does not halt is followed by one with the same result, if this result is good. -/
theorem of_outcome {a : α} {t t' : Session} (hm : m.outcome s = .ok (a, t))
    (hm' : good a → m'.outcome s' = .ok (a, t')) (ht : Alike A t t') :
    Run.Follows A good s s' m m' := by
  rw [Run.Follows, hm]
  exact fun ha => ⟨t', hm' ha, ht⟩

theorem pure (h : Alike A s s') (a : α) :
    Run.Follows A good s s' (Pure.pure a) (Pure.pure a) :=
  of_outcome rfl (fun _ => rfl) h

/-- **One step after the other.** What is not good has to stay so. -/
theorem bind {f f' : α → Run β} (h : Run.Follows A good s s' m m')
    (hf : ∀ (a : α) {t t' : Session}, m.outcome s = .ok (a, t) → good a → Alike A t t' →
      Run.Follows A good' t t' (f a) (f' a))
    (hbad : ∀ (a : α) (t : Session), ¬good a →
      ∃ b u, (f a).outcome t = .ok (b, u) ∧ ¬good' b) :
    Run.Follows A good' s s' (m >>= f) (m' >>= f') := by
  rw [Run.Follows] at h
  rw [Run.Follows, outcome_bind, outcome_bind]
  rcases hm : m.outcome s with e | ⟨a, t⟩
  · rw [hm] at h
    rcases h with h | ⟨h, hm'⟩
    · exact Or.inl h
    · exact Or.inr ⟨h, by rw [hm']⟩
  · rw [hm] at h
    simp only
    by_cases ha : good a
    · obtain ⟨t', hm', ht⟩ := h ha
      rw [hm']
      exact hf a hm ha ht
    · obtain ⟨b, u, hout, hb⟩ := hbad a t ha
      rw [hout]
      exact fun hgood => absurd hgood hb

/-- One step after the other, where everything is good. -/
theorem bind_any {f f' : α → Run β} (h : Run.Follows A (fun _ => True) s s' m m')
    (hf : ∀ (a : α) {t t' : Session}, Alike A t t' → Run.Follows A good' t t' (f a) (f' a)) :
    Run.Follows A good' s s' (m >>= f) (m' >>= f') :=
  bind h (fun a _ _ _ _ ht => hf a ht) fun _ _ hgood => absurd trivial hgood

theorem get_bind {f f' : Session → Run β} (h : Run.Follows A good' s s' (f s) (f' s')) :
    Run.Follows A good' s s' (get >>= f) (get >>= f') :=
  h

end Run.Follows

namespace Action.Follows

/-- An action follows another one if it leads to each outcome that counts, and shares each halt that
is not excused. -/
theorem of_outcomes {m m' : Action α}
    (hok : ∀ {r : Except Error α} {t : Session}, m.outcome s = .ok (r, t) → A.Accepts r →
      ∃ t', m'.outcome s' = .ok (r, t') ∧ Alike A t t')
    (hhalt : ∀ {e : Halt}, m.outcome s = .error e →
      A.excused e ∨ A.shared e ∧ m'.outcome s' = .error e) : Action.Follows A s s' m m' := by
  rw [Action.Follows, Run.Follows, Run.outcome_action, Run.outcome_action]
  rcases hm : m.outcome s with e | ⟨r, t⟩
  · exact hhalt hm
  · exact hok hm

/-- What the first run leads to, the second one leads to. -/
theorem ok {m m' : Action α} {r : Except Error α} {t : Session} (h : Action.Follows A s s' m m')
    (hm : m.outcome s = .ok (r, t)) (hr : A.Accepts r) :
    ∃ t', m'.outcome s' = .ok (r, t') ∧ Alike A t t' := by
  rw [Action.Follows, Run.Follows, Run.outcome_action, Run.outcome_action, hm] at h
  exact h hr

/-- Where the first run halts, it is excused, or the second one halts too. -/
theorem halt {m m' : Action α} {e : Halt} (h : Action.Follows A s s' m m')
    (hm : m.outcome s = .error e) : A.excused e ∨ A.shared e ∧ m'.outcome s' = .error e := by
  rw [Action.Follows, Run.Follows, Run.outcome_action, Run.outcome_action, hm] at h
  exact h

theorem pure (h : Alike A s s') (a : α) :
    Action.Follows A s s' (Pure.pure a) (Pure.pure a) :=
  Run.Follows.pure h (Except.ok a)

theorem throw (h : Alike A s s') (e : Error) :
    Action.Follows A s s' (MonadExcept.throw e : Action α) (MonadExcept.throw e) :=
  Run.Follows.pure h (Except.error e)

theorem liftExcept (h : Alike A s s') (r : Except Error α) :
    Action.Follows A s s' (liftExcept r) (liftExcept r) := by
  cases r with
  | ok a => exact pure h a
  | error e => exact throw h e

theorem except (h : Alike A s s') (r : Except Error α) :
    Action.Follows A s s' (liftM r : Action α) (liftM r) := by
  cases r with
  | ok a => exact pure h a
  | error e => exact throw h e

/-- An outcome that both sides have already is taken apart once. -/
theorem except_bind (h : Alike A s s') {r : Except Error α} {f f' : α → Action β}
    (hf : ∀ a, r = .ok a → Action.Follows A s s' (f a) (f' a)) :
    Action.Follows A s s' (liftM r >>= f) (liftM r >>= f') := by
  cases r with
  | ok a => exact hf a rfl
  | error e => exact throw h e

/-- The second action is looked at only after a value of the first one, in sessions that are alike.
-/
theorem bind {m m' : Action α} {f f' : α → Action β} (h : Action.Follows A s s' m m')
    (hf : ∀ (a : α) {t t' : Session}, m.outcome s = .ok (.ok a, t) → Alike A t t' →
      Action.Follows A t t' (f a) (f' a)) :
    Action.Follows A s s' (m >>= f) (m' >>= f') := by
  refine Run.Follows.bind h (fun r t t' hm _ ht => ?_) fun r t hr => ?_
  · cases r with
    | ok a => exact hf a hm ht
    | error e => exact Run.Follows.pure ht (Except.error e)
  · obtain ⟨herrors, e, rfl⟩ := Accord.not_accepts hr
    exact ⟨.error e, t, rfl, Accord.not_accepts_error herrors e⟩

theorem get_bind {f f' : Session → Action α} (h : Action.Follows A s s' (f s) (f' s')) :
    Action.Follows A s s' (get >>= f) (get >>= f') :=
  h

/-- A step without errors, and what follows it. -/
theorem lift_bind {m m' : Run α} {f f' : α → Action β} (h : Run.Follows A good s s' m m')
    (hf : ∀ (a : α) {t t' : Session}, good a → Alike A t t' → Action.Follows A t t' (f a) (f' a))
    (hbad : ∀ (a : α) (t : Session), ¬good a →
      ¬A.errors ∧ ∃ e u, (f a).outcome t = .ok (.error e, u)) :
    Action.Follows A s s' (ExceptT.lift m >>= f) (ExceptT.lift m' >>= f') := by
  have hlift (n : Run α) (g : α → Action β) :
      (ExceptT.lift n >>= g).run = n >>= fun a => (g a).run := by simp
  rw [Action.Follows, hlift, hlift]
  refine Run.Follows.bind h (fun a t t' _ ha ht => hf a ha ht) fun a t ha => ?_
  obtain ⟨herrors, e, u, hout⟩ := hbad a t ha
  exact ⟨.error e, u, hout, Accord.not_accepts_error herrors e⟩

/-- A change follows another one if it leads to a session that is alike. -/
theorem modify (f f' : Session → Session) (h : Alike A (f s) (f' s')) :
    Action.Follows A s s' (modify f) (modify f') :=
  Run.Follows.of_outcome (a := Except.ok PUnit.unit) rfl (fun _ => rfl) h

theorem modifyGet {f f' : Session → α × Session} (heq : (f' s').1 = (f s).1)
    (h : Alike A (f s).2 (f' s').2) : Action.Follows A s s' (modifyGet f) (modifyGet f') := by
  refine Run.Follows.of_outcome (a := Except.ok (f s).1) rfl (fun _ => ?_) h
  rw [← heq]
  rfl

/-- An update follows another one if its function agrees, also about failing. -/
theorem update {f f' : Session → Except Error (α × Session)} (h : Alike A s s')
    (hf : Agree (fun x x' => x'.1 = x.1 ∧ Alike A x.2 x'.2) (f s) (f' s')) :
    Action.Follows A s s' (Action.update f) (Action.update f') := by
  have hout := outcome_update f s
  have hout' := outcome_update f' s'
  match hr : f s, hr' : f' s', hf with
  | .ok (a, t), .ok (a', t'), .ok ⟨heq, ht⟩ =>
    rw [hr] at hout
    rw [hr'] at hout'
    cases heq
    exact Run.Follows.of_outcome hout (fun _ => hout') ht
  | .error e, .error _, .error _ =>
    rw [hr] at hout
    rw [hr'] at hout'
    exact Run.Follows.of_outcome hout (fun _ => hout') h

/-- A change that may fail follows another one if its function agrees, also about failing. -/
theorem change {f f' : Session → Except Error Session} (h : Alike A s s')
    (hf : Agree (Alike A) (f s) (f' s')) :
    Action.Follows A s s' (Action.change f) (Action.change f') :=
  update h (.bind hf fun _ ht => .ok ⟨rfl, ht⟩)

end Action.Follows

namespace Reading.Follows

theorem pure (h : Alike A s s') (a : α) :
    Reading.Follows A s s' (Pure.pure a) (Pure.pure a) :=
  fun c => Run.Follows.pure h (Except.ok a, c)

theorem throw (h : Alike A s s') (e : Error) :
    Reading.Follows A s s' (MonadExcept.throw e : Reading α) (MonadExcept.throw e) :=
  fun c => Run.Follows.pure h (Except.error e, c)

/-- Reading that is refused on the first side. -/
theorem refused (h : Alike A s s') {e : Error} {m' : Reading α}
    (hm' : A.errors → m' = MonadExcept.throw e) :
    Reading.Follows A s s' (MonadExcept.throw e : Reading α) m' := by
  intro c
  refine Run.Follows.of_outcome (a := (Except.error e, c)) rfl (fun hgood => ?_) h
  rw [hm' (Accord.errors_of_accepts hgood)]
  rfl

theorem malformed (h : Alike A s s') (position : Nat) (what : Malformation) :
    Reading.Follows A s s' (Reading.malformed position what : Reading α)
      (Reading.malformed position what) :=
  throw h _

/-- An outcome that both sides have already is taken apart once. -/
theorem liftExcept_bind (h : Alike A s s') {r : Except Error α} {f f' : α → Reading β}
    (hf : ∀ a, r = .ok a → Reading.Follows A s s' (f a) (f' a)) :
    Reading.Follows A s s' (liftExcept r >>= f) (liftExcept r >>= f') := by
  cases r with
  | ok a => exact hf a rfl
  | error e => exact throw h e

theorem check_bind (h : Alike A s s') {position : Nat} {r : Except Malformation α}
    {f f' : α → Reading β} (hf : ∀ a, Reading.Follows A s s' (f a) (f' a)) :
    Reading.Follows A s s' (Reading.check position r >>= f) (Reading.check position r >>= f') :=
  liftExcept_bind h fun a _ => hf a

theorem liftExcept (h : Alike A s s') (r : Except Error α) :
    Reading.Follows A s s' (liftExcept r) (liftExcept r) := by
  cases r with
  | ok a => exact pure h a
  | error e => exact throw h e

/-- The second reader is looked at only after a value of the first one, at the place that both have
reached. -/
theorem bind {m m' : Reading α} {f f' : α → Reading β} (h : Reading.Follows A s s' m m')
    (hf : ∀ (a : α) {c d : Cursor} {t t' : Session}, m.outcome c s = .ok ((.ok a, d), t) →
      Alike A t t' → Reading.Follows A t t' (f a) (f' a)) :
    Reading.Follows A s s' (m >>= f) (m' >>= f') := by
  intro c
  change Run.Follows A _ s s'
    (m.run c >>= fun x => (ExceptT.bindCont f x.1 : StateT Cursor Run (Except Error β)) x.2)
    (m'.run c >>= fun x => (ExceptT.bindCont f' x.1 : StateT Cursor Run (Except Error β)) x.2)
  refine Run.Follows.bind (h c) (fun ⟨r, d⟩ t t' hm _ ht => ?_) fun ⟨r, d⟩ t hr => ?_
  · cases r with
    | ok a => exact hf a hm ht d
    | error e => exact Run.Follows.pure ht (Except.error e, d)
  · obtain ⟨herrors, e, rfl⟩ := Accord.not_accepts hr
    exact ⟨(.error e, d), t, rfl, Accord.not_accepts_error herrors e⟩

/-- The readers may look where they are, which is the same place. -/
theorem get_bind {f f' : Cursor → Reading α} (h : ∀ c, Reading.Follows A s s' (f c) (f' c)) :
    Reading.Follows A s s' (get >>= f) (get >>= f') :=
  fun c => h c c

theorem session_bind {f f' : Session → Reading α} (h : Reading.Follows A s s' (f s) (f' s')) :
    Reading.Follows A s s' (getThe Session >>= f) (getThe Session >>= f') :=
  h

theorem set_bind {c : Cursor} {f f' : PUnit → Reading α}
    (h : Reading.Follows A s s' (f ⟨⟩) (f' ⟨⟩)) :
    Reading.Follows A s s' (set c >>= f) (set c >>= f') :=
  fun _ => h c

theorem modify_bind {g : Cursor → Cursor} {f f' : PUnit → Reading α}
    (h : Reading.Follows A s s' (f ⟨⟩) (f' ⟨⟩)) :
    Reading.Follows A s s' (modify g >>= f) (modify g >>= f') :=
  fun c => h (g c)

/-- A step without errors, and what follows it. -/
theorem lift_bind {m m' : Run α} {f f' : α → Reading β} (h : Run.Follows A good s s' m m')
    (hf : ∀ (a : α) {t t' : Session}, good a → Alike A t t' → Reading.Follows A t t' (f a) (f' a))
    (hbad : ∀ (a : α) (c : Cursor) (t : Session), ¬good a →
      ¬A.errors ∧ ∃ e d u, (f a).outcome c t = .ok ((.error e, d), u)) :
    Reading.Follows A s s' (ExceptT.lift (StateT.lift m) >>= f)
      (ExceptT.lift (StateT.lift m') >>= f') := by
  intro c
  have hlift (n : Run α) (g : α → Reading β) :
      (ExceptT.lift (StateT.lift n) >>= g).run c = n >>= fun a => (g a).run c := by
    funext u
    change Except.bind (Except.bind (Except.bind (n u) _) _) _ = Except.bind (n u) _
    cases n u <;> rfl
  rw [hlift, hlift]
  refine Run.Follows.bind h (fun a t t' _ ha ht => hf a ha ht c) fun a t ha => ?_
  obtain ⟨herrors, e, d, u, hout⟩ := hbad a c t ha
  exact ⟨(.error e, d), u, hout, Accord.not_accepts_error herrors e⟩

/-- An action reads nothing, so it is followed at every place. -/
theorem act {m m' : Action α} (h : Action.Follows A s s' m m') :
    Reading.Follows A s s' (Reading.act m) (Reading.act m') := by
  refine lift_bind h (fun r t t' _ ht => liftExcept ht r) fun r c t hr => ?_
  obtain ⟨herrors, e, rfl⟩ := Accord.not_accepts hr
  exact ⟨herrors, e, c, t, rfl⟩

end Reading.Follows

end QuantityCalc
