import Mathlib.Data.Nat.Init
import QuantityCalc.Proofs.Label.System

/-!
# Symbols that are captured

A symbol that is read with a prefix may be captured by a unit that is declared later, as `km` by a
unit with this symbol. From the system alone it can be told whether that has happened
(`UnitSystem.Captured`): the definitions before a unit are the system as it was when the unit was
declared. A symbol that denotes something goes on to denote it, unless it is captured
(`Grows.lookup?_or_captured`).
-/

namespace QuantityCalc.UnitSystem

variable {s s' : UnitSystem} {id : Nat} {d : UnitDefinition} {t : String} {u : MeasureUnit}

/-- Whether a declaration has captured a symbol that denoted something before. -/
def Captured (s : UnitSystem) (t : String) : Prop :=
  ∃ id d, s.definitions[id]? = some d ∧ international.definitions.size ≤ id ∧
    (s.before id).contains t = true ∧ (s.before id).Captures d t

/-! ## Systems with the same definitions -/

theorem unit?_congr (h : s'.definitions = s.definitions) (id : Nat) : s'.unit? id = s.unit? id := by
  rcases Nat.lt_or_ge id s.definitions.size with hlt | hge
  · have hgrows : s.Grows s' := ⟨fun hd => h ▸ hd⟩
    exact hgrows.unit?_eq hlt
  · rw [Registry.unit?, Registry.unit?, h, Array.getElem?_eq_none hge]

theorem idOf?_congr (h : s'.definitions = s.definitions) (t : String) :
    s'.idOf? t = s.idOf? t := by
  refine Option.ext fun id => ?_
  rw [idOf?_eq_some_iff, idOf?_eq_some_iff, h]

theorem lookup?_congr (h : s'.definitions = s.definitions) (t : String) :
    s'.lookup? t = s.lookup? t := by
  have hprefixed (p : MetricPrefix) : s'.prefixed? t p = s.prefixed? t p := by
    simp only [prefixed?, idOf?_congr h, h, unit?_congr h]
  simp only [lookup?, idOf?_congr h, unit?_congr h, funext hprefixed]

/-! ## The course of a system -/

theorem definitions_before_size (s : UnitSystem) :
    (s.before s.definitions.size).definitions = s.definitions := by
  simp [definitions_before, ← Array.length_toList]

/-- The symbol of a definition is new when it is added. -/
theorem idOf?_before (hd : s.definitions[id]? = some d) : (s.before id).idOf? d.symbol = none := by
  refine idOf?_eq_none_iff.2 fun {j d'} hd' heq => ?_
  rw [getElem?_before] at hd'
  split at hd'
  next hlt =>
    -- The symbol has only one index.
    have hid := s.indexed.idOf?_symbol hd
    rw [← heq, s.indexed.idOf?_symbol hd'] at hid
    exact Nat.ne_of_lt hlt (Option.some.inj hid)
  next => cases hd'

/-- Behind the definitions before a unit comes the definition of the unit. -/
theorem definitions_before_succ (hd : s.definitions[id]? = some d) :
    (s.before (id + 1)).definitions = ((s.before id).push d (idOf?_before hd)).definitions := by
  refine Array.ext_getElem? fun j => ?_
  obtain ⟨hlt, -⟩ := Array.getElem?_eq_some_iff.1 hd
  have hsize : (s.before id).definitions.size = id := by
    simp [definitions_before, Nat.min_eq_left (Nat.le_of_lt hlt)]
  rw [getElem?_definitions_push, getElem?_before, getElem?_before, hsize]
  rcases Nat.lt_trichotomy j id with hj | rfl | hj
  · rw [if_pos (Nat.lt_succ_of_lt hj), if_neg (Nat.ne_of_lt hj), if_pos hj]
  · rw [if_pos (Nat.lt_succ_self j), if_pos rfl, hd]
  · rw [if_neg (Nat.not_lt_of_le hj), if_neg (Nat.ne_of_gt hj), if_neg (Nat.lt_asymm hj)]

/-- What was defined before a unit is not changed by growth. -/
theorem Grows.definitions_before (h : s.Grows s') (hid : id ≤ s.definitions.size) :
    (s'.before id).definitions = (s.before id).definitions := by
  refine Array.ext_getElem? fun j => ?_
  rw [getElem?_before, getElem?_before]
  split
  next hj =>
    have hd := Array.getElem?_eq_getElem (Nat.lt_of_lt_of_le hj hid)
    rw [hd, h.definition hd]
  next => rfl

theorem Grows.captured (h : s.Grows s') (ht : s.Captured t) : s'.Captured t := by
  obtain ⟨id, d, hd, hdeclared, hcontains, hnew, hsymbol⟩ := ht
  have hlt := (Array.getElem?_eq_some_iff.1 hd).1
  have hbefore := h.definitions_before (Nat.le_of_lt hlt)
  refine ⟨id, d, h.definition hd, hdeclared, ?_, ?_, hsymbol⟩
  · unfold UnitSystem.contains
    rw [lookup?_congr hbefore]
    exact hcontains
  · rw [idOf?_congr hbefore]
    exact hnew

/-- **A symbol goes on to denote what it denotes, unless it is captured.** -/
theorem Grows.lookup?_or_captured (h : s.Grows s')
    (hs : international.definitions.size ≤ s.definitions.size) (hu : s.lookup? t = some u) :
    s'.lookup? t = some u ∨ s'.Captured t := by
  by_cases hcap : s'.Captured t
  · exact .inr hcap
  -- The definitions are added one after the other, and none of them captures the symbol.
  have hstep (id : Nat) (hid : s.definitions.size ≤ id) :
      id ≤ s'.definitions.size → (s'.before id).lookup? t = some u := by
    induction id, hid using Nat.le_induction with
    | base =>
      intro _
      rw [lookup?_congr (h.definitions_before (Nat.le_refl _)),
        lookup?_congr s.definitions_before_size]
      exact hu
    | succ id hid ih =>
      intro hlt
      have hbefore := ih (Nat.le_of_lt hlt)
      have hd := Array.getElem?_eq_getElem hlt
      rw [lookup?_congr (definitions_before_succ hd)]
      refine (lookup?_of_push hbefore).resolve_right fun hcaptures => hcap ?_
      exact ⟨id, _, hd, Nat.le_trans hs hid, Option.isSome_iff_exists.2 ⟨u, hbefore⟩, hcaptures⟩
  rw [← lookup?_congr s'.definitions_before_size]
  exact .inl (hstep _ h.size_le (Nat.le_refl _))

end QuantityCalc.UnitSystem
