import QuantityCalc.Proofs.Label.Sessions

/-!
# Units declared in sessions

A session whose quantities come from its own command lines is backed: `BackedReachable` is
reachability with the condition that its system backs the quantities that are handed to a session
from the outside. So whatever an expression leads to in such a session is backed, and the unit that
is declared as equal to it has its dimension (`dimension_of_declareUnit`).

There is one exception. A value may carry a label that denoted something by a prefix when the value
was computed, as `km`, and that was registered later. The declaration then takes the label for the
registered unit, and the new unit has the dimension of that unit (`dimension_of_taken_over`).
-/

namespace QuantityCalc

open Session

variable {s t s₁ s₂ : Session} {fs : List Frame}

namespace Session

/-- The sessions that can be met if the units of the quantities that are handed to them are backed,
each with the frames of the calls that are running. -/
abbrev BackedReachable : List Frame → Session → Prop := HonestReachable .symbols

/-- Binding the symbol of a declared unit leaves the system as the declaration makes it. -/
theorem declare_of_declareUnit {symbol : String} {q : Quantity}
    (h : (declareUnit symbol q).outcome s = .ok (.ok (), t)) :
    ∃ id, s.system.declare symbol q = (.ok id, t.system) := by
  rw [declareUnit_eq_changes, Action.outcome_bind, Action.outcome_update] at h
  rcases hregister : s.afterRegisterUnit symbol q with e | ⟨id, u⟩
  · rw [hregister] at h
    cases h
  · rw [hregister] at h
    have hsystem : t.system = u.system := by
      rcases Action.eq_of_outcome_change h with ⟨-, hbind⟩ | ⟨e, he, -⟩
      · rw [eq_insert_of_bind hbind]
        rfl
      · cases he
    unfold afterRegisterUnit at hregister
    split at hregister
    next id' system hdeclare =>
      cases hregister
      exact ⟨id, hdeclare.trans (by rw [hsystem])⟩
    next => cases hregister

/-- **A unit that is declared as equal to a value has the dimension of the value**, whatever has
been done with the session before, and whatever is asked of it for the value. The exception is a
value whose label is taken over: the unit may then have the dimension of the unit that has the label
now. -/
theorem dimension_of_declareUnit {e : Entry} {budget : Nat} {r : e.Result} {q : Quantity}
    {symbol : String} (h : BackedReachable fs s) (hgiven : s.system.BacksAll e.given)
    (hrun : (e.run budget).outcome s = .ok (r, s₁)) (hq : q ∈ e.values r)
    (hdeclare : (declareUnit symbol q).outcome s₁ = .ok (.ok (), s₂)) :
    ∃ u, s₂.system.lookup? symbol = some u ∧ (u.dimension = q.dimension ∨
      s₁.system.TakenOver q.unit.symbol ∧
        s₁.system.dimension? q.unit.symbol = some u.dimension) := by
  have hs := backed_of_honestReachable h
  obtain ⟨hs₁, hvalues⟩ := e.yields_run budget hs hgiven hrun
  obtain ⟨id, hsystem⟩ := declare_of_declareUnit hdeclare
  exact UnitSystem.dimension_of_declare hs₁.backed.sound (hvalues q hq) hsystem

/-- Runs lines in a new session, reads the value of an expression, and declares a unit as equal to
it: the dimension of the value, and the dimension of the unit. -/
def dimensionsAfter (ls : List String) (t : Text) (symbol : String) :
    Option (Dimension × Option Dimension) :=
  match (executeLines 0 ls).outcome (start {} .unknown) with
  | .ok (_, s) =>
    match (readExpression 0 t).outcome s with
    | .ok (⟨.ok q, _⟩, s₁) =>
      match (declareUnit symbol q).outcome s₁ with
      | .ok (.ok (), s₂) => some (q.dimension, s₂.system.dimension? symbol)
      | _ => none
    | _ => none
  | .error _ => none

theorem exists_of_dimensionsAfter {ls : List String} {t : Text} {symbol : String} {d : Dimension}
    {d? : Option Dimension} (h : dimensionsAfter ls t symbol = some (d, d?)) :
    ∃ s s₁ s₂ q rest, BackedReachable [] s ∧
      (readExpression 0 t).outcome s = .ok (⟨.ok q, rest⟩, s₁) ∧
      (declareUnit symbol q).outcome s₁ = .ok (.ok (), s₂) ∧ q.dimension = d ∧
      s₂.system.dimension? symbol = d? := by
  unfold dimensionsAfter at h
  split at h
  next r s hlines =>
    split at h
    next q rest s₁ hread =>
      split at h
      next s₂ hdeclare =>
        cases h
        have hgiven : (start {} .unknown).system.BacksAll (Entry.lines ls).given :=
          Labelling.backsAll_nil (L := .symbols)
        have hs : BackedReachable [] s :=
          (HonestReachable.start {} .unknown).step (.entry (.lines ls) 0 hgiven hlines)
        exact ⟨s, s₁, s₂, q, rest, hs, hread, hdeclare, rfl, rfl⟩
      next => cases h
    next => cases h
  next => cases h

theorem dimension_of_declareUnit_sample : ∃ s s₁ s₂ q rest u, BackedReachable [] s ∧
    (readExpression 0 "x".toList).outcome s = .ok (⟨.ok q, rest⟩, s₁) ∧
    q.dimension = .base .length ∧
    (declareUnit "lap" q).outcome s₁ = .ok (.ok (), s₂) ∧
    s₂.system.lookup? "lap" = some u ∧ (u.dimension = q.dimension ∨
      s₁.system.TakenOver q.unit.symbol ∧
        s₁.system.dimension? q.unit.symbol = some u.dimension) := by
  have hlap : dimensionsAfter ["x = 3 km"] "x".toList "lap" =
      some (.base .length, some (.base .length)) := by
    decide +kernel
  obtain ⟨s, s₁, s₂, q, rest, hs, hread, hdeclare, hlength, -⟩ := exists_of_dimensionsAfter hlap
  obtain ⟨u, hu, hdimension⟩ := dimension_of_declareUnit (e := .expression "x".toList) hs
    (Labelling.backsAll_nil (L := .symbols)) hread List.mem_cons_self hdeclare
  exact ⟨s, s₁, s₂, q, rest, u, hs, hread, hlength, hdeclare, hu, hdimension⟩

/-- A value of three kilometres is stored, and then `km` is declared as five seconds. A unit that is
declared as equal to the value is a unit of time, though the value is a length. -/
theorem dimension_of_taken_over :
    ¬∀ {fs : List Frame} {s s₁ s₂ : Session} {budget : Nat} {t rest : Text} {q : Quantity}
      {symbol : String}, Reachable fs s →
      (readExpression budget t).outcome s = .ok (⟨.ok q, rest⟩, s₁) →
      (declareUnit symbol q).outcome s₁ = .ok (.ok (), s₂) →
      ∃ u, s₂.system.lookup? symbol = some u ∧ u.dimension = q.dimension := by
  have hlap : dimensionsAfter ["x = 3 km", "Unit km = 5 s"] "x".toList "lap" =
      some (.base .length, some (.base .time)) := by
    decide +kernel
  obtain ⟨s, s₁, s₂, q, rest, hs, hread, hdeclare, hlength, htime⟩ := exists_of_dimensionsAfter hlap
  intro h
  obtain ⟨u, hu, hdimension⟩ := h hs.reachable hread hdeclare
  rw [UnitSystem.dimension?, hu, Option.map_some, Option.some.injEq, hdimension, hlength] at htime
  exact absurd htime (by decide)

end Session

end QuantityCalc
