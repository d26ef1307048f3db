import QuantityCalc.Proofs.Unit.Registration

/-!
# Histories of registrations

A history is a sequence of registrations, successful or refused (`Registry.History`), that starts
from an empty registry or from the international system. Each of them changes the list of
definitions and the table of symbols one after the other. In between they do not agree, but after
every registration, also after one that is refused, the list and the table are inverse to each
other, and each unit can be worked out, since units are convertible to earlier ones only. A
registration adds one definition or changes nothing, so what the registry has answered about its
units it answers forever (`Registry.history_keeps`).
-/

namespace QuantityCalc.Registry

variable {s s' : Registry} {id : Nat} {d : UnitDefinition} {r : Registration} {t : String}
  {u : MeasureUnit}

/-- The registry after a registration, which may have been refused. -/
def after (s : Registry) (r : Registration) : Registry := (r.run.outcome s).2

/-- Whether a registration refers to no unit but one of the registry. -/
def Admits (s : Registry) (r : Registration) : Prop :=
  ∀ primary ∈ r.primary?, primary < s.definitions.size

/-- Registrations, successful or refused, that lead from a registry to another. -/
inductive History : Registry → Registry → Prop
  | refl (s : Registry) : History s s
  | step {s s' : Registry} {r : Registration} (h : History s s') (hr : s'.Admits r) :
    History s (s'.after r)

/-- Whether a registry comes of an empty one or of the international one by registrations. -/
def Registered (s : Registry) : Prop :=
  ∃ s₀, (s₀ = {} ∨ s₀ = UnitSystem.international.toRegistry) ∧ History s₀ s

/-- Whether the list of definitions and the table of symbols are inverse to each other, and units
are convertible to earlier ones only. -/
structure Regular (s : Registry) : Prop where
  indexed : s.Indexed
  ordered : s.Ordered

/-! ## What a history keeps -/

/-- **One registration keeps a registry regular**, whether it is successful or refused. -/
theorem Regular.after (hs : s.Regular) (hr : s.Admits r) : (s.after r).Regular := by
  rw [Registry.after]
  rcases outcome_run s r with ⟨d, hsymbol, hnew, hprimary, hrun⟩ | ⟨e, -, hrun⟩
  · rw [hrun]
    refine ⟨hs.indexed.push (hsymbol ▸ hnew), hs.ordered.push fun primary hp => ?_⟩
    rcases hprimary primary hp with hp | ⟨t, ht⟩
    · exact hr primary hp
    · exact hs.indexed.lt_size_of_idOf? ht
  · rw [hrun]
    exact hs

theorem regular_of_history (hs : s.Regular) (h : s.History s') : s'.Regular := by
  induction h with
  | refl => exact hs
  | step _ hr ih => exact ih.after hr

theorem regular_of_registered (h : s.Registered) : s.Regular := by
  obtain ⟨s₀, hstart | hstart, hhistory⟩ := h
  · rw [hstart] at hhistory
    exact regular_of_history ⟨indexed_empty, by simp [Ordered]⟩ hhistory
  · have hindexed := indexed_empty.registerAll UnitSystem.standardUnits
    have hordered := UnitSystem.ordered_international
    rw [UnitSystem.toRegistry_international] at hstart hordered
    rw [hstart] at hhistory
    exact regular_of_history ⟨hindexed, hordered⟩ hhistory

theorem grows_of_history (h : s.History s') : s.Grows s' := by
  induction h with
  | refl => exact .refl s
  | @step s' r _ _ ih =>
    rw [after]
    rcases outcome_run s' r with ⟨d, -, -, -, hrun⟩ | ⟨e, -, hrun⟩
    · rw [hrun]
      exact ih.trans (grows_push s' d)
    · rw [hrun]
      exact ih

/-- **What a registry answers about its units, it answers forever.** In a registry that comes of
registrations, the table has an index for a symbol just when the definition with that index has the
symbol, every unit is convertible to earlier ones only and can be worked out, and a registration
adds one definition at the end or changes nothing. After any further registrations, the old indices
have their definitions and their units, the old symbols have their indices, and the coherent unit
that was first for its dimension is first. -/
theorem history_keeps (h : s.Registered) :
    (∀ t id, s.bySymbol[t]? = some id ↔
      ∃ d : UnitDefinition, s.definitions[id]? = some d ∧ d.symbol = t) ∧
    (∀ id (d : UnitDefinition) primary, s.definitions[id]? = some d →
      d.kind.primary? = some primary → primary < id) ∧
    (∀ r : Registration, (∃ d : UnitDefinition, d.symbol = r.symbol ∧ s.idOf? r.symbol = none ∧
        r.run.outcome s = (.ok s.definitions.size, s.push d)) ∨
      ∃ e, (s.idOf? r.symbol ≠ none ∨ ¬IsSymbol r.symbol) ∧ r.run.outcome s = (.error e, s)) ∧
    ∀ s', s.History s' →
      (∀ id < s.definitions.size, ∃ d u, s.definitions[id]? = some d ∧ s.unit? id = some u ∧
        s'.definitions[id]? = some d ∧ s'.unit? id = some u) ∧
      (∀ t id, s.idOf? t = some id → s'.idOf? t = some id) ∧
      ∀ dimension u, s.namedFor? dimension = some u → s'.namedFor? dimension = some u := by
  have hregular := regular_of_registered h
  refine ⟨hregular.indexed, fun _ _ _ hd hp => hregular.ordered hd hp, fun r => ?_,
    fun s' hhistory => ?_⟩
  · rcases outcome_run s r with ⟨d, hsymbol, hnew, -, hrun⟩ | hrefused
    · exact .inl ⟨d, hsymbol, hnew, hrun⟩
    · exact .inr hrefused
  have hgrows := grows_of_history hhistory
  have hregular' := regular_of_history hregular hhistory
  refine ⟨fun id hid => ?_, fun _ _ ht => hgrows.idOf? hregular.indexed hregular'.indexed ht,
    fun _ _ hu => hgrows.namedFor? hu⟩
  obtain ⟨u, hu⟩ := exists_unit? hregular.ordered hid
  have hd := Array.getElem?_eq_getElem hid
  exact ⟨_, u, hd, hu, hgrows.definition hd, hgrows.unit? hu⟩

/-- A registry with two units, after a third registration that was refused. -/
def imperial : Registry :=
  let feet := ({} : Registry).after (.base "ft" "foot" .length)
  (feet.after (.convertible "yd" "yard" 0 3 0)).after (.derived "ft" "foot" (.base .length))

/-- The yard keeps its index and its unit when the mile is registered. -/
theorem history_keeps_sample :
    imperial.Registered ∧ imperial.definitions.size = 2 ∧ imperial.idOf? "yd" = some 1 ∧
      (imperial.after (.convertible "mi" "mile" 1 1760 0)).idOf? "yd" = some 1 ∧
      ∃ u, imperial.unit? 1 = some u ∧
        (imperial.after (.convertible "mi" "mile" 1 1760 0)).unit? 1 = some u := by
  have hregistered : imperial.Registered := by
    refine ⟨{}, .inl rfl, .step (.step (.step (.refl _) ?_) ?_) ?_⟩
    · intro p hp
      cases hp
    · intro p hp
      cases hp
      decide +kernel
    · intro p hp
      cases hp
  have hmile : imperial.History (imperial.after (.convertible "mi" "mile" 1 1760 0)) := by
    refine .step (.refl _) fun p hp => ?_
    cases hp
    decide +kernel
  have hsymbol : imperial.idOf? "yd" = some 1 := by decide +kernel
  obtain ⟨-, -, -, hkeeps⟩ := history_keeps hregistered
  obtain ⟨hunits, hsymbols, -⟩ := hkeeps _ hmile
  obtain ⟨_, u, -, hu, -, hu'⟩ := hunits 1 (by decide +kernel)
  exact ⟨hregistered, by decide +kernel, hsymbol, hsymbols _ _ hsymbol, u, hu, hu'⟩

end QuantityCalc.Registry
