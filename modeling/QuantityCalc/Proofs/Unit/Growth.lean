import QuantityCalc.Unit.System

/-!
# Systems that grow

Registering units adds definitions behind those that are there. Whatever the system says by way of
its definitions alone, it goes on saying: which unit an index has, which index a registered symbol
has, and what a prefix makes of a registered symbol.
-/

namespace QuantityCalc

/-- The unit to which a unit is convertible. -/
def UnitKind.primary? : UnitKind → Option Nat
  | .convertible primary .. => some primary
  | .base _ | .derived _ | .scaled .. => none

namespace Registry

variable {s s' s'' : Registry} {id : Nat} {d : UnitDefinition} {t : String} {u : MeasureUnit}

/-- The definitions of a registry stand at the same places in another. -/
structure Grows (s s' : Registry) : Prop where
  definition : ∀ {id : Nat} {d : UnitDefinition}, s.definitions[id]? = some d →
    s'.definitions[id]? = some d

/-- Units are convertible to units that stand before them. -/
def Ordered (s : Registry) : Prop :=
  ∀ ⦃id : Nat⦄ ⦃d : UnitDefinition⦄ ⦃primary : Nat⦄,
    s.definitions[id]? = some d → d.kind.primary? = some primary → primary < id

theorem Grows.refl (s : Registry) : Grows s s := ⟨id⟩

theorem Grows.trans (h : Grows s s') (h' : Grows s' s'') : Grows s s'' :=
  ⟨h'.definition ∘ h.definition⟩

theorem Grows.size_le (h : Grows s s') : s.definitions.size ≤ s'.definitions.size := by
  refine Nat.le_of_not_lt fun hlt => ?_
  have hd := h.definition (Array.getElem?_eq_getElem hlt)
  exact Nat.lt_irrefl _ (Array.getElem?_eq_some_iff.1 hd).1

theorem Indexed.idOf?_eq_none_iff (hs : s.Indexed) : s.idOf? t = none ↔
    ∀ {j : Nat} {d : UnitDefinition}, s.definitions[j]? = some d → d.symbol ≠ t := by
  rw [Option.eq_none_iff_forall_ne_some]
  exact ⟨fun h j d hd heq => h j ((hs t j).2 ⟨d, hd, heq⟩),
    fun h j hj => let ⟨_, hd, heq⟩ := (hs t j).1 hj; h hd heq⟩

/-- A definition is found by its symbol. -/
theorem Indexed.idOf?_symbol (hs : s.Indexed) (hd : s.definitions[id]? = some d) :
    s.idOf? d.symbol = some id :=
  (hs _ id).2 ⟨d, hd, rfl⟩

theorem Indexed.nodup (hs : s.Indexed) : (s.definitions.toList.map (·.symbol)).Nodup := by
  refine List.pairwise_iff_getElem.2 fun i j hi hj hlt heq => ?_
  simp only [List.getElem_map, Array.getElem_toList] at heq
  rw [List.length_map, Array.length_toList] at hi hj
  have hfirst := hs.idOf?_symbol (Array.getElem?_eq_getElem hi)
  rw [heq, hs.idOf?_symbol (Array.getElem?_eq_getElem hj)] at hfirst
  exact Nat.ne_of_gt hlt (Option.some.inj hfirst)

theorem Indexed.lt_size_of_idOf? (hs : s.Indexed) (h : s.idOf? t = some id) :
    id < s.definitions.size := by
  obtain ⟨d, hd, -⟩ := (hs t id).1 h
  exact (Array.getElem?_eq_some_iff.1 hd).1

/-- **A registered symbol keeps its index.** -/
theorem Grows.idOf? (h : Grows s s') (hs : s.Indexed) (hs' : s'.Indexed)
    (hid : s.idOf? t = some id) : s'.idOf? t = some id := by
  obtain ⟨d, hd, heq⟩ := (hs t id).1 hid
  exact (hs' t id).2 ⟨d, h.definition hd, heq⟩

/-- **An index keeps its unit.** -/
theorem Grows.unit?_eq (h : Grows s s') {id : Nat} (hid : id < s.definitions.size) :
    s'.unit? id = s.unit? id := by
  -- The primary unit of a convertible one stands before it.
  induction id using Nat.strongRecOn with
  | ind id ih =>
    have hd := Array.getElem?_eq_getElem hid
    rw [Registry.unit?, Registry.unit?, hd, h.definition hd]
    generalize s.definitions[id] = d
    cases hkind : d.kind with
    | base b => simp only [hkind]
    | derived dimension => simp only [hkind]
    | scaled dimension factor => simp only [hkind]
    | convertible primary factor offset =>
      by_cases hlt : primary < id
      · simp only [hkind, if_pos hlt, ih primary hlt (Nat.lt_trans hlt hid)]
      · simp only [hkind, if_neg hlt]

theorem lt_size_of_unit? (h : s.unit? id = some u) : id < s.definitions.size := by
  refine Nat.lt_of_not_le fun hle => ?_
  rw [Registry.unit?, Array.getElem?_eq_none hle] at h
  cases h

theorem Grows.unit? (h : Grows s s') (hu : s.unit? id = some u) : s'.unit? id = some u :=
  (h.unit?_eq (lt_size_of_unit? hu)).trans hu

/-- The first definition of a kind remains the first. -/
theorem Grows.findIdx?_definitions {p : UnitDefinition → Bool} (h : Grows s s')
    (hid : s.definitions.findIdx? p = some id) : s'.definitions.findIdx? p = some id := by
  obtain ⟨hlt, hp, hfirst⟩ := Array.findIdx?_eq_some_iff_getElem.1 hid
  have hsame {j : Nat} (hj : j < s.definitions.size) (hj' : j < s'.definitions.size) :
      s'.definitions[j] = s.definitions[j] :=
    (Array.getElem?_eq_some_iff.1 (h.definition (Array.getElem?_eq_getElem hj))).2
  have hlt' := Nat.lt_of_lt_of_le hlt h.size_le
  refine Array.findIdx?_eq_some_iff_getElem.2 ⟨hlt', hsame hlt hlt' ▸ hp, fun j hj => ?_⟩
  rw [hsame (Nat.lt_trans hj hlt)]
  exact hfirst j hj

/-- **The first coherent unit of a dimension remains the first.** -/
theorem Grows.namedFor? {dimension : Dimension} (h : Grows s s')
    (hu : s.namedFor? dimension = some u) : s'.namedFor? dimension = some u := by
  unfold Registry.namedFor? at hu ⊢
  split at hu
  · cases hu
  next hne =>
    obtain ⟨id, hid, hunit⟩ := Option.bind_eq_some_iff.1 hu
    rw [if_neg hne]
    exact Option.bind_eq_some_iff.2 ⟨id, h.findIdx?_definitions hid, h.unit? hunit⟩

/-! ## Ordered registries -/

/-- Every registered unit can be found. -/
theorem exists_unit? (h : s.Ordered) (hid : id < s.definitions.size) :
    ∃ u, s.unit? id = some u := by
  induction id using Nat.strongRecOn with
  | ind id ih =>
    have hd := Array.getElem?_eq_getElem hid
    rw [Registry.unit?, hd]
    generalize s.definitions[id] = d at hd
    cases hkind : d.kind with
    | base b =>
      simp only [hkind]
      exact ⟨_, rfl⟩
    | derived dimension =>
      simp only [hkind]
      exact ⟨_, rfl⟩
    | scaled dimension factor =>
      simp only [hkind]
      exact ⟨_, rfl⟩
    | convertible primary factor offset =>
      have hlt : primary < id := h hd (by rw [hkind]; rfl)
      obtain ⟨u, hu⟩ := ih primary hlt (Nat.lt_trans hlt hid)
      simp only [hkind, if_pos hlt, hu, Option.map_some]
      exact ⟨_, rfl⟩

theorem Ordered.of_grows (h : s.Grows s') (hs' : s'.Ordered) : s.Ordered :=
  fun _ _ _ hd hprimary => hs' (h.definition hd) hprimary

end Registry

namespace UnitSystem

open Registry

variable {s s' : UnitSystem} {id : Nat} {d : UnitDefinition} {t : String} {u : MeasureUnit}

/-- A symbol has the index of the definition with that symbol. -/
theorem idOf?_eq_some_iff :
    s.idOf? t = some id ↔ ∃ d : UnitDefinition, s.definitions[id]? = some d ∧ d.symbol = t :=
  s.indexed t id

theorem idOf?_eq_none_iff : s.idOf? t = none ↔
    ∀ {j : Nat} {d : UnitDefinition}, s.definitions[j]? = some d → d.symbol ≠ t :=
  s.indexed.idOf?_eq_none_iff

theorem lt_size_of_idOf? (h : s.idOf? t = some id) : id < s.definitions.size :=
  s.indexed.lt_size_of_idOf? h

/-- The definitions of a system stand at the same places in another. -/
abbrev Grows (s s' : UnitSystem) : Prop := s.toRegistry.Grows s'.toRegistry

theorem Grows.idOf? (h : s.Grows s') (hid : s.idOf? t = some id) : s'.idOf? t = some id :=
  Registry.Grows.idOf? h s.indexed s'.indexed hid

/-- **A registered symbol keeps its unit.** -/
theorem Grows.lookup?_of_idOf? (h : s.Grows s') (hid : s.idOf? t = some id)
    (hu : s.lookup? t = some u) : s'.lookup? t = some u := by
  simp only [lookup?, hid] at hu
  simp only [lookup?, h.idOf? hid]
  exact h.unit? hu

/-- What a prefix makes of a symbol. -/
theorem prefixed?_eq_some_iff {p : MetricPrefix} : s.prefixed? t p = some u ↔
    ∃ w id d v, t = p.symbol ++ w ∧ s.idOf? w = some id ∧ s.definitions[id]? = some d ∧
      d.prefixable = true ∧ s.unit? id = some v ∧
      u = { v with symbol := t, factor := v.factor * p.factor, origin := .named } := by
  simp only [prefixed?, Option.bind_eq_bind, Option.bind_eq_some_iff, Text.dropLead?_eq_some_iff]
  constructor
  · rintro ⟨rest, hrest, id, hid, d, hd, hu⟩
    split at hu
    next hprefixable =>
      obtain ⟨v, hv, hvu⟩ := Option.bind_eq_some_iff.1 hu
      have heq := (Option.some.inj hvu).symm
      refine ⟨String.ofList rest, id, d, v, ?_, hid, hd, hprefixable, hv, heq⟩
      apply String.toList_injective
      rw [String.toList_append, String.toList_ofList, hrest]
    next => cases hu
  · rintro ⟨w, id, d, v, rfl, hid, hd, hprefixable, hv, rfl⟩
    refine ⟨w.toList, String.toList_append, id, ?_, d, hd, ?_⟩
    · rw [String.ofList_toList]
      exact hid
    · rw [if_pos hprefixable, hv]
      rfl

/-- **A prefix makes the same of a symbol.** -/
theorem Grows.prefixed? {p : MetricPrefix} (h : s.Grows s') (hu : s.prefixed? t p = some u) :
    s'.prefixed? t p = some u := by
  obtain ⟨w, id, d, v, ht, hid, hd, hprefixable, hv, rfl⟩ := prefixed?_eq_some_iff.1 hu
  exact prefixed?_eq_some_iff.2
    ⟨w, id, d, v, ht, h.idOf? hid, h.definition hd, hprefixable, h.unit? hv, rfl⟩

end UnitSystem

end QuantityCalc
