import QuantityCalc.Proofs.Label.Quantity
import QuantityCalc.Proofs.Run.Outcome
import QuantityCalc.Proofs.Session.Moves

/-!
# Steps that lead to backed quantities

A session is backed in the sense of a labelling (`Session.Backed`) if its system of units is sound
and backs the units of all variables. `Run.Yields L values s m` says of a step that it leads from
the session `s` to backed sessions only, in which its system has grown, and that the quantities that
its result carries are backed there. `values` tells which ones these are. `Action.Yields` and
`Reading.Yields` say it of steps that may fail, where an error carries nothing. The properties of
the parts of a step are put together as the parts are.
-/

namespace QuantityCalc

variable {L : Labelling} {α β : Type} {s t u : Session} {qs : List Quantity}

/-! ## Sessions -/

/-- The system of a session is sound, and it backs the units of all variables. -/
structure Session.Backed (L : Labelling) (s : Session) : Prop where
  sound : s.system.Sound
  value : ∀ {p : Nat} {name : String} {q : Quantity}, s.item? p name = some (.var q) →
    L.Backs s.system q.unit

/-- A session to which another may lead: it is backed, and the system has grown. -/
structure Session.Leads (L : Labelling) (s t : Session) : Prop where
  backed : t.Backed L
  grows : s.system.Grows t.system

namespace Session

theorem Backed.leads (hs : s.Backed L) : s.Leads L s := ⟨hs, .refl _⟩

/-- What one session leads to leads to what that one leads to, since systems grow further. -/
theorem Leads.trans (h : s.Leads L t) (h' : t.Leads L u) : s.Leads L u :=
  ⟨h'.backed, h.grows.trans h'.grows⟩

/-- Quantities that are backed remain so. -/
theorem Backed.backsAll_of_leads (hs : s.Backed L) (h : s.Leads L t)
    (hqs : L.BacksAll s.system qs) : L.BacksAll t.system qs :=
  Labelling.backsAll_of_grows hs.sound h.grows h.backed.sound.ordered hqs

/-- A session with the same system leads to a backed session if its variables are old. -/
theorem Backed.of_items (hs : s.Backed L) (hsystem : t.system = s.system)
    (h : ∀ {p : Nat} {name : String} {q : Quantity}, t.item? p name = some (.var q) →
      (∃ p name, s.item? p name = some (.var q)) ∨ L.Backs s.system q.unit) : s.Leads L t := by
  refine ⟨⟨hsystem ▸ hs.sound, fun hitem => ?_⟩, hsystem ▸ .refl _⟩
  rw [hsystem]
  rcases h hitem with ⟨p, name, hold⟩ | hq
  · exact hs.value hold
  · exact hq

end Session

/-! ## Steps -/

/-- The quantities that the value of an outcome carries. An error carries none. -/
def Except.values (values : α → List Quantity) : Except Error α → List Quantity
  | .ok a => values a
  | .error _ => []

/-- Whatever a step leads to is backed: the session, and the quantities that the result carries. -/
def Run.Yields (L : Labelling) (values : α → List Quantity) (s : Session) (m : Run α) : Prop :=
  ∀ ⦃a : α⦄ ⦃t : Session⦄, m.outcome s = .ok (a, t) → s.Leads L t ∧ L.BacksAll t.system (values a)

/-- Whatever a step that may fail leads to is backed. -/
def Action.Yields (L : Labelling) (values : α → List Quantity) (s : Session)
    (m : Action α) : Prop :=
  Run.Yields L (Except.values values) s m.run

/-- Whatever reading leads to is backed, at any place. -/
def Reading.Yields (L : Labelling) (values : α → List Quantity) (s : Session)
    (m : Reading α) : Prop :=
  ∀ c, Run.Yields L (fun x => Except.values values x.1) s (m.run c)

variable {values : α → List Quantity} {values' : β → List Quantity}

namespace Run.Yields

/-- A step that leaves the session as it is. -/
theorem still (hs : s.Backed L) {m : Run α}
    (h : ∀ {a : α} {t : Session}, m.outcome s = .ok (a, t) →
      t = s ∧ L.BacksAll s.system (values a)) : Run.Yields L values s m := by
  intro a t hm
  obtain ⟨rfl, hvalues⟩ := h hm
  exact ⟨hs.leads, hvalues⟩

theorem pure (hs : s.Backed L) {a : α} (h : L.BacksAll s.system (values a)) :
    Run.Yields L values s (Pure.pure a) :=
  still hs fun hm => by cases hm; exact ⟨rfl, h⟩

/-- The second step starts in a backed session, with a result whose quantities are backed there. -/
theorem bind {m : Run α} {f : α → Run β} (h : Run.Yields L values s m)
    (hf : ∀ (a : α) {t : Session}, s.Leads L t → L.BacksAll t.system (values a) →
      Run.Yields L values' t (f a)) : Run.Yields L values' s (m >>= f) := by
  intro b u hm
  rw [outcome_bind] at hm
  rcases hout : m.outcome s with e | ⟨a, t⟩
  · rw [hout] at hm
    cases hm
  · rw [hout] at hm
    obtain ⟨ht, ha⟩ := h hout
    obtain ⟨hu, hb⟩ := hf a ht ha hm
    exact ⟨ht.trans hu, hb⟩

theorem get_bind {f : Session → Run α} (h : Run.Yields L values s (f s)) :
    Run.Yields L values s (get >>= f) :=
  h

end Run.Yields

namespace Action.Yields

theorem pure (hs : s.Backed L) {a : α} (h : L.BacksAll s.system (values a)) :
    Action.Yields L values s (Pure.pure a) :=
  Run.Yields.pure (a := Except.ok a) hs h

theorem throw (hs : s.Backed L) (e : Error) : Action.Yields L values s (MonadExcept.throw e) :=
  Run.Yields.pure (a := Except.error e) hs Labelling.backsAll_nil

theorem liftExcept (hs : s.Backed L) {r : Except Error α}
    (h : L.BacksAll s.system (Except.values values r)) : Action.Yields L values s (liftExcept r) :=
  Run.Yields.still hs fun hm => by
    rw [Run.outcome_action, outcome_liftExcept] at hm
    cases hm
    exact ⟨rfl, h⟩

/-- The second action starts after a value. An error of the first one carries no quantity. -/
theorem bind {m : Action α} {f : α → Action β} (h : Action.Yields L values s m)
    (hf : ∀ (a : α) {t : Session}, s.Leads L t → L.BacksAll t.system (values a) →
      Action.Yields L values' t (f a)) : Action.Yields L values' s (m >>= f) := by
  refine Run.Yields.bind h fun r t ht hr => ?_
  cases r with
  | ok a => exact hf a ht hr
  | error e => exact Run.Yields.pure (a := Except.error e) ht.backed Labelling.backsAll_nil

theorem except (hs : s.Backed L) {r : Except Error α}
    (h : ∀ a, r = .ok a → L.BacksAll s.system (values a)) : Action.Yields L values s (liftM r) := by
  cases r with
  | ok a => exact pure hs (h a rfl)
  | error e => exact throw hs e

/-- An outcome that is known already leaves the session as it is. -/
theorem except_bind (hs : s.Backed L) {r : Except Error α} {f : α → Action β}
    (h : ∀ a, r = .ok a → Action.Yields L values' s (f a)) :
    Action.Yields L values' s (liftM r >>= f) := by
  cases r with
  | ok a => exact h a rfl
  | error e => exact throw hs e

theorem get_bind {f : Session → Action α} (h : Action.Yields L values s (f s)) :
    Action.Yields L values s (get >>= f) :=
  h

theorem lift {m : Run α} (h : Run.Yields L values s m) :
    Action.Yields L values s (ExceptT.lift m) :=
  Run.Yields.bind h fun a _ ht ha => Run.Yields.pure (a := Except.ok a) ht.backed ha

/-- A change of the session is asked to lead to a backed one. -/
theorem modify {f : Session → Session} {values : PUnit → List Quantity} (h : s.Leads L (f s))
    (hvalues : L.BacksAll (f s).system (values ⟨⟩)) : Action.Yields L values s (modify f) :=
  fun _ _ hm => by cases hm; exact ⟨h, hvalues⟩

theorem modifyGet {f : Session → α × Session} (h : s.Leads L (f s).2)
    (hvalues : L.BacksAll (f s).2.system (values (f s).1)) :
    Action.Yields L values s (modifyGet f) :=
  fun _ _ hm => by cases hm; exact ⟨h, hvalues⟩

/-- An update leads to the session of its function, or to none other than the one it starts in. -/
theorem update (hs : s.Backed L) {f : Session → Except Error (α × Session)}
    (h : ∀ {a : α} {t : Session}, f s = .ok (a, t) →
      s.Leads L t ∧ L.BacksAll t.system (values a)) :
    Action.Yields L values s (Action.update f) := by
  intro r t hm
  rw [Run.outcome_action, outcome_update] at hm
  rcases hf : f s with e | ⟨a, u⟩
  · rw [hf] at hm
    cases hm
    exact ⟨hs.leads, Labelling.backsAll_nil⟩
  · rw [hf] at hm
    cases hm
    exact h hf

/-- A change that may fail carries no quantity. -/
theorem change (hs : s.Backed L) {f : Session → Except Error Session}
    (h : ∀ {t : Session}, f s = .ok t → s.Leads L t) :
    Action.Yields L (fun _ => []) s (Action.change f) := by
  refine update hs fun {_ t} heq => ?_
  obtain ⟨u, hu, heq⟩ := Except.bind_eq_ok.1 heq
  cases heq
  exact ⟨h hu, Labelling.backsAll_nil⟩

end Action.Yields

namespace Reading.Yields

theorem pure (hs : s.Backed L) {a : α} (h : L.BacksAll s.system (values a)) :
    Reading.Yields L values s (Pure.pure a) :=
  fun c => Run.Yields.pure (a := (Except.ok a, c)) hs h

theorem throw (hs : s.Backed L) (e : Error) : Reading.Yields L values s (MonadExcept.throw e) :=
  fun c => Run.Yields.pure (a := (Except.error e, c)) hs Labelling.backsAll_nil

theorem malformed (hs : s.Backed L) (position : Nat) (what : Malformation) :
    Reading.Yields L values s (Reading.malformed position what) :=
  throw hs _

/-- The second reader starts after a value, in a backed session. -/
theorem bind {m : Reading α} {f : α → Reading β} (h : Reading.Yields L values s m)
    (hf : ∀ (a : α) {t : Session}, s.Leads L t → L.BacksAll t.system (values a) →
      Reading.Yields L values' t (f a)) : Reading.Yields L values' s (m >>= f) := by
  intro c
  change Run.Yields L _ s
    (m.run c >>= fun x => (ExceptT.bindCont f x.1 : StateT Cursor Run (Except Error β)) x.2)
  refine Run.Yields.bind (h c) fun ⟨r, d⟩ t ht hr => ?_
  cases r with
  | ok a => exact hf a ht hr d
  | error e =>
    exact Run.Yields.pure (a := (Except.error e, d)) ht.backed Labelling.backsAll_nil

/-- An outcome that is known already leaves the session as it is. -/
theorem liftExcept_bind (hs : s.Backed L) {r : Except Error α} {f : α → Reading β}
    (h : ∀ a, r = .ok a → Reading.Yields L values' s (f a)) :
    Reading.Yields L values' s (liftExcept r >>= f) := by
  cases r with
  | ok a => exact h a rfl
  | error e => exact throw hs e

theorem check_bind (hs : s.Backed L) {position : Nat} {r : Except Malformation α}
    {f : α → Reading β} (h : ∀ a, Reading.Yields L values' s (f a)) :
    Reading.Yields L values' s (Reading.check position r >>= f) :=
  liftExcept_bind hs fun a _ => h a

theorem get_bind {f : Cursor → Reading α} (h : ∀ c, Reading.Yields L values s (f c)) :
    Reading.Yields L values s (get >>= f) :=
  fun c => h c c

theorem session_bind {f : Session → Reading α} (h : Reading.Yields L values s (f s)) :
    Reading.Yields L values s (getThe Session >>= f) :=
  h

theorem set_bind {d : Cursor} {f : PUnit → Reading α} (h : Reading.Yields L values s (f ⟨⟩)) :
    Reading.Yields L values s (set d >>= f) :=
  fun _ => h d

theorem modify_bind {g : Cursor → Cursor} {f : PUnit → Reading α}
    (h : Reading.Yields L values s (f ⟨⟩)) : Reading.Yields L values s (modify g >>= f) :=
  fun c => h (g c)

theorem lift {m : Run α} (h : Run.Yields L values s m) :
    Reading.Yields L values s (ExceptT.lift (StateT.lift m)) := by
  intro c x t hm
  rw [Run.outcome_reading, outcome_lift] at hm
  rcases hout : m.outcome s with e | ⟨a, u⟩
  · rw [hout] at hm
    cases hm
  · rw [hout] at hm
    cases hm
    exact h hout

/-- An action carries the same quantities wherever the reader is. -/
theorem act {m : Action α} (h : Action.Yields L values s m) :
    Reading.Yields L values s (Reading.act m) := by
  intro c x t hm
  simp only [Reading.act, Run.outcome_reading, outcome_bind, outcome_lift] at hm
  rcases hout : Run.outcome m.run s with e | ⟨r, u⟩
  · rw [hout] at hm
    cases hm
  · rw [hout] at hm
    simp only [outcome_liftExcept] at hm
    cases hm
    exact h hout

end Reading.Yields

end QuantityCalc
