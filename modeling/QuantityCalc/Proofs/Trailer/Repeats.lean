import QuantityCalc.Proofs.Run.Outcome
import QuantityCalc.Proofs.Trailer.Text

/-!
# Reading in front of an ending

`Reading.Repeats r s c c' m m'` is about reading twice in the session `s`, from a place `c` and from
a place `c'` behind which the same text goes on with the text `r` at its end, such as a trailer. If
the first reading succeeds, so does the second one, with the same value and in the same session, and
it leaves what the first one leaves with `r` behind it. `Run.Repeats P r s m m'` says so of readers
of whole texts, if what the first one leaves meets the condition `P`. Nothing is said if the first
reading fails. The steps are put together as those of the readers are.
-/

namespace QuantityCalc

open Text

variable {α β : Type} {r : Text} {s t : Session}

/-! ## Steps that succeed -/

theorem Action.outcome_bind_eq_ok {m : Action α} {f : α → Action β} {b : β} :
    (m >>= f).outcome s = .ok (.ok b, t) ↔
      ∃ a u, m.outcome s = .ok (.ok a, u) ∧ (f a).outcome u = .ok (.ok b, t) := by
  rw [outcome_bind]
  rcases m.outcome s with h | ⟨e | a, u⟩
  · simp
  · simp
  · simp [eq_comm]

theorem Run.outcome_bind_eq_ok {m : Run α} {f : α → Run β} {b : β} :
    (m >>= f).outcome s = .ok (b, t) ↔
      ∃ a u, m.outcome s = .ok (a, u) ∧ (f a).outcome u = .ok (b, t) := by
  rw [outcome_bind]
  rcases m.outcome s with h | ⟨a, u⟩
  · simp
  · simp

theorem Reading.outcome_bind_eq_ok {m : Reading α} {f : α → Reading β} {b : β} {c e : Cursor} :
    (m >>= f).outcome c s = .ok ((.ok b, e), t) ↔
      ∃ a d u, m.outcome c s = .ok ((.ok a, d), u) ∧ (f a).outcome d u = .ok ((.ok b, e), t) := by
  rw [outcome_bind]
  rcases m.outcome c s with h | ⟨⟨e' | a, d⟩, u⟩
  · simp
  · simp
  · simp

theorem Reading.outcome_ite {p : Prop} [Decidable p] (m n : Reading α) (c : Cursor) (s : Session) :
    (if p then m else n).outcome c s = if p then m.outcome c s else n.outcome c s := by
  split <;> rfl

/-! ## Two readings -/

/-- If the first reader of a text succeeds, and what it leaves meets a condition, then the second
one succeeds in the same way, and what it leaves has the text `r` behind it. -/
def Run.Repeats (P : Text → Prop) (r : Text) (s : Session) (m m' : Run (Parsed α)) : Prop :=
  ∀ ⦃a : α⦄ ⦃rest : Text⦄ ⦃t : Session⦄, m.outcome s = .ok (⟨.ok a, rest⟩, t) → P rest →
    ∃ rest', m'.outcome s = .ok (⟨.ok a, rest'⟩, t) ∧ Remains r rest rest'

theorem Run.Repeats.mono {P Q : Text → Prop} {m m' : Run (Parsed α)} (h : Run.Repeats P r s m m')
    (hPQ : ∀ rest, Q rest → P rest) : Run.Repeats Q r s m m' :=
  fun _ rest _ hm hrest => h hm (hPQ rest hrest)

/-- If reading from the first place succeeds, reading from the second one does so in the same way,
and what it leaves has the text `r` behind it. -/
def Reading.Repeats (r : Text) (s : Session) (c c' : Cursor) (m m' : Reading α) : Prop :=
  ∀ ⦃a : α⦄ ⦃d : Cursor⦄ ⦃t : Session⦄, m.outcome c s = .ok ((.ok a, d), t) →
    ∃ d', m'.outcome c' s = .ok ((.ok a, d'), t) ∧ Trails r d.rest d'.rest

namespace Reading.Repeats

variable {c c' d d' : Cursor}

theorem pure (h : Trails r c.rest c'.rest) (a : α) :
    Reading.Repeats r s c c' (Pure.pure a) (Pure.pure a) := by
  intro b d t hm
  cases hm
  exact ⟨c', rfl, h⟩

theorem throw (e : Error) (m' : Reading α) :
    Reading.Repeats r s c c' (MonadExcept.throw e) m' := by
  intro b d t hm
  cases hm

theorem malformed (position : Nat) (what : Malformation) (m' : Reading α) :
    Reading.Repeats r s c c' (Reading.malformed position what) m' :=
  throw _ m'

theorem bind {m m' : Reading α} {f f' : α → Reading β} (h : Reading.Repeats r s c c' m m')
    (hf : ∀ (a : α) ⦃d d' : Cursor⦄ ⦃t : Session⦄, Trails r d.rest d'.rest →
      Reading.Repeats r t d d' (f a) (f' a)) :
    Reading.Repeats r s c c' (m >>= f) (m' >>= f') := by
  intro b e t hm
  obtain ⟨a, d, u, ha, hb⟩ := outcome_bind_eq_ok.1 hm
  obtain ⟨d', ha', hd⟩ := h ha
  obtain ⟨e', hb', he⟩ := hf a hd hb
  exact ⟨e', outcome_bind_eq_ok.2 ⟨a, d', u, ha', hb'⟩, he⟩

theorem liftExcept (h : Trails r c.rest c'.rest) {x x' : Except Error α}
    (hx : ∀ a, x = .ok a → x' = .ok a) :
    Reading.Repeats r s c c' (liftExcept x) (liftExcept x') := by
  intro a d t hm
  rw [outcome_liftExcept] at hm
  cases hm
  exact ⟨c', by rw [outcome_liftExcept, hx a rfl], h⟩

/-- A check that succeeds does so at any position. -/
theorem check_bind {position position' : Nat} {x : Except Malformation α} {f f' : α → Reading β}
    (h : ∀ a, Reading.Repeats r s c c' (f a) (f' a)) :
    Reading.Repeats r s c c' (Reading.check position x >>= f)
      (Reading.check position' x >>= f') := by
  cases x with
  | ok a => exact h a
  | error what => exact throw _ _

theorem get_bind {f f' : Cursor → Reading α} (h : Reading.Repeats r s c c' (f c) (f' c')) :
    Reading.Repeats r s c c' (get >>= f) (get >>= f') :=
  h

theorem session_bind {f f' : Session → Reading α} (h : Reading.Repeats r s c c' (f s) (f' s)) :
    Reading.Repeats r s c c' (getThe Session >>= f) (getThe Session >>= f') :=
  h

theorem set_bind {f f' : PUnit → Reading α} (h : Reading.Repeats r s d d' (f ⟨⟩) (f' ⟨⟩)) :
    Reading.Repeats r s c c' (set d >>= f) (set d' >>= f') :=
  h

theorem modify_bind {g : Cursor → Cursor} {f f' : PUnit → Reading α}
    (h : Reading.Repeats r s (g c) (g c') (f ⟨⟩) (f' ⟨⟩)) :
    Reading.Repeats r s c c' (modify g >>= f) (modify g >>= f') :=
  h

theorem parsed_bind {P : Text → Prop} {m m' : Run (Parsed α)} {f f' : Parsed α → Reading β}
    (h : Run.Repeats P r s m m')
    (hok : ∀ (a : α) ⦃rest rest' : Text⦄ ⦃t : Session⦄, Remains r rest rest' →
      Reading.Repeats r t c c' (f ⟨.ok a, rest⟩) (f' ⟨.ok a, rest'⟩))
    (hother : ∀ (a : α) (rest : Text) (t : Session) (n : Reading β), ¬P rest →
      Reading.Repeats r t c c' (f ⟨.ok a, rest⟩) n)
    (herror : ∀ (e : Error) (rest : Text) (t : Session) (n : Reading β),
      Reading.Repeats r t c c' (f ⟨.error e, rest⟩) n) :
    Reading.Repeats r s c c' (ExceptT.lift (StateT.lift m) >>= f)
      (ExceptT.lift (StateT.lift m') >>= f') := by
  intro b e t hm
  rw [outcome_bind, outcome_lift] at hm
  rcases hout : m.outcome s with x | ⟨⟨a | a, rest⟩, u⟩
  · rw [hout] at hm
    cases hm
  · rw [hout] at hm
    obtain ⟨d', hd', -⟩ := herror a rest u (MonadExcept.throw a) hm
    cases hd'
  · rw [hout] at hm
    by_cases hP : P rest
    · obtain ⟨rest', hout', hrest⟩ := h hout hP
      rw [outcome_bind, outcome_lift, hout']
      exact hok a hrest hm
    · obtain ⟨d', hd', -⟩ := hother a rest u (MonadExcept.throw .emptyExpression) hP hm
      cases hd'

theorem act (h : Trails r c.rest c'.rest) (m : Action α) :
    Reading.Repeats r s c c' (Reading.act m) (Reading.act m) := by
  intro a d t hm
  simp only [Reading.act, outcome_bind, outcome_lift, outcome_liftExcept, Run.outcome_action]
    at hm ⊢
  rcases hout : m.outcome s with h | ⟨x, u⟩
  · rw [hout] at hm
    cases hm
  · rw [hout] at hm
    cases hm
    exact ⟨c', rfl, h⟩

end Reading.Repeats

end QuantityCalc
