import QuantityCalc.Proofs.Run.Outcome
import Mathlib.Order.Defs.Unbundled

/-!
# Steps that keep to a relation

`Run.Conforms I R s m m'` says of two steps that they have the same outcome in the session `s`, and
that the session behind them satisfies `I` and is related to `s` by the preorder `R`. So it is shown
of a step alone what it does to a session (`m` and `m'` are the same), and of two ways to run the
bodies of functions that they make no difference.
-/

namespace QuantityCalc

variable {α β : Type} {I : Session → Prop} {R R' : Session → Session → Prop} {s : Session}

/-- Two steps of a session have the same outcome, and they keep to a relation. -/
def Run.Conforms (I : Session → Prop) (R : Session → Session → Prop) (s : Session)
    (m m' : Run α) : Prop :=
  m'.outcome s = m.outcome s ∧ ∀ {a : α} {t : Session}, m.outcome s = .ok (a, t) → R s t ∧ I t

/-- Two steps that may fail have the same outcome, and they keep to a relation. -/
def Action.Conforms (I : Session → Prop) (R : Session → Session → Prop) (s : Session)
    (m m' : Action α) : Prop :=
  Run.Conforms I R s m.run m'.run

/-- At every place, reading in two ways has the same outcome and keeps to a relation. -/
def Reading.Conforms (I : Session → Prop) (R : Session → Session → Prop) (s : Session)
    (m m' : Reading α) : Prop :=
  ∀ c, Run.Conforms I R s (m.run c) (m'.run c)

namespace Run.Conforms

/-- A step that keeps to a relation keeps to a wider one. -/
theorem mono {m m' : Run α} (hR : ∀ {s t : Session}, R s t → R' s t)
    (h : Run.Conforms I R s m m') : Run.Conforms I R' s m m' :=
  ⟨h.1, fun hm => ⟨hR (h.2 hm).1, (h.2 hm).2⟩⟩

variable [IsPreorder Session R]

/-- A step that leaves the session as it is keeps to every relation. -/
theorem still (hs : I s) {m : Run α}
    (h : ∀ {a : α} {t : Session}, m.outcome s = .ok (a, t) → t = s) : Run.Conforms I R s m m := by
  refine ⟨rfl, fun hm => ?_⟩
  obtain rfl := h hm
  exact ⟨refl _, hs⟩

theorem pure (hs : I s) (a : α) : Run.Conforms I R s (Pure.pure a) (Pure.pure a) :=
  still hs fun h => by cases h; rfl

/-- Steps that keep to a relation may be made one after the other. -/
theorem bind {m m' : Run α} {f f' : α → Run β} (h : Run.Conforms I R s m m')
    (hf : ∀ (a : α) {t : Session}, I t → Run.Conforms I R t (f a) (f' a)) :
    Run.Conforms I R s (m >>= f) (m' >>= f') := by
  obtain ⟨heq, hm⟩ := h
  rw [Run.Conforms, outcome_bind, outcome_bind, heq]
  match hout : m.outcome s with
  | .error h => exact ⟨rfl, fun h => by cases h⟩
  | .ok (a, t) =>
    obtain ⟨hR, hI⟩ := hm hout
    obtain ⟨heq', hm'⟩ := hf a hI
    exact ⟨heq', fun h => ⟨IsTrans.trans _ _ _ hR (hm' h).1, (hm' h).2⟩⟩

end Run.Conforms

namespace Action.Conforms

theorem mono {m m' : Action α} (hR : ∀ {s t : Session}, R s t → R' s t)
    (h : Action.Conforms I R s m m') : Action.Conforms I R' s m m' :=
  Run.Conforms.mono hR h

variable [IsPreorder Session R]

/-- An action that leaves the session as it is keeps to every relation. -/
theorem still (hs : I s) {m : Action α}
    (h : ∀ {r : Except Error α} {t : Session}, m.outcome s = .ok (r, t) → t = s) :
    Action.Conforms I R s m m :=
  Run.Conforms.still hs h

theorem pure (hs : I s) (a : α) : Action.Conforms I R s (Pure.pure a) (Pure.pure a) :=
  Run.Conforms.pure hs (Except.ok a)

theorem throw (hs : I s) (e : Error) :
    Action.Conforms I R s (MonadExcept.throw e : Action α) (MonadExcept.throw e) :=
  Run.Conforms.pure hs (Except.error e)

theorem liftExcept (hs : I s) (r : Except Error α) :
    Action.Conforms I R s (liftExcept r) (liftExcept r) :=
  still hs fun h => by rw [outcome_liftExcept] at h; cases h; rfl

theorem except (hs : I s) (r : Except Error α) :
    Action.Conforms I R s (liftM r : Action α) (liftM r) :=
  still hs fun h => by rw [outcome_except] at h; cases h; rfl

/-- The second action is made after a value of the first one, in a session that keeps to the
relation. -/
theorem bind {m m' : Action α} {f f' : α → Action β} (h : Action.Conforms I R s m m')
    (hf : ∀ (a : α) {t : Session}, I t → Action.Conforms I R t (f a) (f' a)) :
    Action.Conforms I R s (m >>= f) (m' >>= f') := by
  refine Run.Conforms.bind h fun r {t} ht => ?_
  cases r with
  | ok a => exact hf a ht
  | error e => exact Run.Conforms.pure ht (Except.error e)

/-- An outcome that is known already leaves the session as it is. -/
theorem except_bind (hs : I s) {r : Except Error α} {f f' : α → Action β}
    (h : ∀ a, r = .ok a → Action.Conforms I R s (f a) (f' a)) :
    Action.Conforms I R s (liftM r >>= f) (liftM r >>= f') := by
  cases r with
  | ok a => exact h a rfl
  | error e => exact throw hs e

omit [IsPreorder Session R] in
theorem get_bind {f f' : Session → Action α} (h : Action.Conforms I R s (f s) (f' s)) :
    Action.Conforms I R s (get >>= f) (get >>= f') :=
  h

theorem lift {m m' : Run α} (h : Run.Conforms I R s m m') :
    Action.Conforms I R s (ExceptT.lift m) (ExceptT.lift m') :=
  Run.Conforms.bind h fun a _ ht => Run.Conforms.pure ht (Except.ok a)

omit [IsPreorder Session R] in
theorem modify (f : Session → Session) (hR : R s (f s)) (hI : I (f s)) :
    Action.Conforms I R s (modify f) (modify f) :=
  ⟨rfl, fun h => by cases h; exact ⟨hR, hI⟩⟩

omit [IsPreorder Session R] in
theorem modifyGet (f : Session → α × Session) (hR : R s (f s).2) (hI : I (f s).2) :
    Action.Conforms I R s (modifyGet f) (modifyGet f) :=
  ⟨rfl, fun h => by cases h; exact ⟨hR, hI⟩⟩

end Action.Conforms

namespace Reading.Conforms

variable [IsPreorder Session R]

/-- Reading that leaves the session as it is keeps to every relation. -/
theorem still (hs : I s) {m : Reading α}
    (h : ∀ {c d : Cursor} {r : Except Error α} {t : Session},
      m.outcome c s = .ok ((r, d), t) → t = s) : Reading.Conforms I R s m m :=
  fun _ => Run.Conforms.still hs h

theorem pure (hs : I s) (a : α) : Reading.Conforms I R s (Pure.pure a) (Pure.pure a) :=
  still hs fun h => by cases h; rfl

theorem throw (hs : I s) (e : Error) :
    Reading.Conforms I R s (MonadExcept.throw e : Reading α) (MonadExcept.throw e) :=
  still hs fun h => by cases h; rfl

theorem malformed (hs : I s) (position : Nat) (what : Malformation) :
    Reading.Conforms I R s (Reading.malformed position what : Reading α)
      (Reading.malformed position what) :=
  still hs fun h => by cases h; rfl

theorem liftExcept (hs : I s) (r : Except Error α) :
    Reading.Conforms I R s (liftExcept r) (liftExcept r) :=
  still hs fun h => by rw [outcome_liftExcept] at h; cases h; rfl

theorem check (hs : I s) (position : Nat) (r : Except Malformation α) :
    Reading.Conforms I R s (Reading.check position r) (Reading.check position r) :=
  liftExcept hs _

/-- The second reader goes on after a value, from wherever the first one stopped. -/
theorem bind {m m' : Reading α} {f f' : α → Reading β} (h : Reading.Conforms I R s m m')
    (hf : ∀ (a : α) {t : Session}, I t → Reading.Conforms I R t (f a) (f' a)) :
    Reading.Conforms I R s (m >>= f) (m' >>= f') := by
  intro c
  change Run.Conforms I R s
    (m.run c >>= fun x => (ExceptT.bindCont f x.1 : StateT Cursor Run (Except Error β)) x.2)
    (m'.run c >>= fun x => (ExceptT.bindCont f' x.1 : StateT Cursor Run (Except Error β)) x.2)
  refine Run.Conforms.bind (h c) fun ⟨r, d⟩ {t} ht => ?_
  cases r with
  | ok a => exact hf a ht d
  | error e => exact Run.Conforms.pure ht (Except.error e, d)

theorem get (hs : I s) : Reading.Conforms I R s (MonadState.get : Reading Cursor) get :=
  still hs fun h => by cases h; rfl

theorem session (hs : I s) :
    Reading.Conforms I R s (getThe Session : Reading Session) (getThe Session) :=
  still hs fun h => by cases h; rfl

theorem set (hs : I s) (c : Cursor) :
    Reading.Conforms I R s (MonadState.set c : Reading PUnit) (MonadState.set c) :=
  still hs fun h => by cases h; rfl

theorem modify (hs : I s) (f : Cursor → Cursor) :
    Reading.Conforms I R s (modify f : Reading PUnit) (modify f) :=
  still hs fun h => by cases h; rfl

theorem lift {m m' : Run α} (h : Run.Conforms I R s m m') :
    Reading.Conforms I R s (ExceptT.lift (StateT.lift m)) (ExceptT.lift (StateT.lift m')) := by
  intro c
  change Run.Conforms I R s
    ((m >>= fun a => Pure.pure (a, c)) >>= fun x => Pure.pure (Except.ok x.1, x.2))
    ((m' >>= fun a => Pure.pure (a, c)) >>= fun x => Pure.pure (Except.ok x.1, x.2))
  refine Run.Conforms.bind (Run.Conforms.bind h fun a _ ht => Run.Conforms.pure ht (a, c)) ?_
  exact fun x _ ht => Run.Conforms.pure ht (Except.ok x.1, x.2)

/-- An action keeps to a relation wherever the reader is. -/
theorem act {m m' : Action α} (h : Action.Conforms I R s m m') :
    Reading.Conforms I R s (Reading.act m) (Reading.act m') :=
  bind (lift h) fun r _ ht => liftExcept ht r

end Reading.Conforms

end QuantityCalc
