import QuantityCalc.Proofs.Unit.Registration

/-!
# Labels and systems of units

A unit carries a label, and `UnitSystem.declare` takes a label that is a registered symbol for the
unit of that symbol. A system backs a unit (`UnitSystem.Backs`) if its label is no symbol at all, or
denotes something and, if it is registered, is the symbol of a unit of the same dimension. This
lasts when the system grows (`Sound.backs_of_grows`), but for one case: a symbol that denotes
something by a prefix can be registered afterwards, with any dimension. Such a symbol is taken over
(`UnitSystem.TakenOver`).

The systems of sessions are sound (`UnitSystem.Sound`): they grow out of the international system by
declarations. In a sound system, a declaration by a quantity whose unit is backed makes a unit of
the dimension of the quantity, with that one exception (`dimension_of_declare`).
-/

namespace QuantityCalc

namespace UnitSystem

variable {s s' : UnitSystem} {id : Nat} {d : UnitDefinition} {t : String} {u v : MeasureUnit}

/-- What is true of the systems of sessions. -/
structure Sound (s : UnitSystem) : Prop where
  ordered : s.Ordered
  symbol : ∀ {id : Nat} {d : UnitDefinition}, s.definitions[id]? = some d → IsSymbol d.symbol
  grows : international.Grows s

/-- The system as it was before a definition was added. -/
def before (s : UnitSystem) (id : Nat) : UnitSystem :=
  ofDefinitions s.name (s.definitions.toList.take id)

/-- Whether a symbol has been registered by a declaration and denoted something before. -/
def TakenOver (s : UnitSystem) (t : String) : Prop :=
  ∃ id, s.idOf? t = some id ∧ international.definitions.size ≤ id ∧
    (s.before id).contains t = true

/-- Whether the label of a unit denotes a unit of its dimension, as far as it is a symbol that is
not taken over. -/
def Backs (s : UnitSystem) (u : MeasureUnit) : Prop :=
  IsSymbol u.symbol → s.contains u.symbol = true ∧
    (s.TakenOver u.symbol ∨ ∀ {id : Nat} {v : MeasureUnit}, s.idOf? u.symbol = some id →
      s.unit? id = some v → v.dimension = u.dimension)

/-! ## Units and symbols -/

/-- A unit is labelled with the symbol of its definition. -/
theorem symbol_of_unit? (h : s.unit? id = some u) :
    ∃ d, s.definitions[id]? = some d ∧ u.symbol = d.symbol := by
  obtain ⟨d, hd⟩ : ∃ d, s.definitions[id]? = some d :=
    ⟨_, Array.getElem?_eq_getElem (Registry.lt_size_of_unit? h)⟩
  refine ⟨d, hd, ?_⟩
  rw [Registry.unit?, hd] at h
  cases hkind : d.kind with
  | base b =>
    simp only [hkind] at h
    cases h
    rfl
  | derived dimension =>
    simp only [hkind] at h
    cases h
    rfl
  | scaled dimension factor =>
    simp only [hkind] at h
    cases h
    rfl
  | convertible primary factor offset =>
    simp only [hkind] at h
    split at h
    · obtain ⟨p, -, rfl⟩ := Option.map_eq_some_iff.1 h
      rfl
    · cases h

/-- A unit that a symbol denotes is labelled with it. -/
theorem symbol_of_lookup? (h : s.lookup? t = some u) : u.symbol = t := by
  unfold lookup? at h
  split at h
  next id hid =>
    obtain ⟨d, hd, hsymbol⟩ := symbol_of_unit? h
    obtain ⟨d', hd', rfl⟩ := idOf?_eq_some_iff.1 hid
    rw [hd] at hd'
    cases hd'
    exact hsymbol
  next =>
    obtain ⟨p, -, hp⟩ := List.exists_of_findSome?_eq_some h
    obtain ⟨w, id, d, v, rfl, -, -, -, -, rfl⟩ := prefixed?_eq_some_iff.1 hp
    rfl

/-! ## Growth -/

/-- **A symbol that denotes something goes on to denote something.** -/
theorem Grows.contains (h : s.Grows s') (hs' : s'.Ordered) (ht : s.contains t = true) :
    s'.contains t = true := by
  obtain ⟨u, hu⟩ := Option.isSome_iff_exists.1 ht
  unfold UnitSystem.contains
  cases hid' : s'.idOf? t with
  | some id =>
    obtain ⟨v, hv⟩ := Registry.exists_unit? hs' (lt_size_of_idOf? hid')
    simp only [lookup?, hid', hv, Option.isSome_some]
  | none =>
    cases hid : s.idOf? t with
    | some id =>
      rw [h.idOf? hid] at hid'
      cases hid'
    | none =>
      simp only [lookup?, hid] at hu
      obtain ⟨p, hmem, hp⟩ := List.exists_of_findSome?_eq_some hu
      simp only [lookup?, hid']
      exact List.findSome?_isSome_iff.2 ⟨p, hmem, Option.isSome_iff_exists.2 ⟨u, h.prefixed? hp⟩⟩

theorem definitions_before :
    (s.before id).definitions = (s.definitions.toList.take id).toArray :=
  definitions_ofDefinitions (s.indexed.nodup.sublist ((List.take_sublist id _).map _))

theorem getElem?_before {j : Nat} :
    (s.before id).definitions[j]? = if j < id then s.definitions[j]? else none := by
  rw [definitions_before, List.getElem?_toArray, List.getElem?_take, Array.getElem?_toList]

theorem before_grows (s : UnitSystem) (id : Nat) : (s.before id).Grows s := by
  refine ⟨fun {j d} hd => ?_⟩
  rw [getElem?_before] at hd
  split at hd
  · exact hd
  · cases hd

theorem Grows.before (h : s.Grows s') (id : Nat) : (s.before id).Grows (s'.before id) := by
  refine ⟨fun {j d} hd => ?_⟩
  rw [getElem?_before] at hd ⊢
  split at hd
  next hlt =>
    rw [if_pos hlt]
    exact h.definition hd
  next => cases hd

/-- What was added later does not count before. -/
theorem Grows.to_before (h : s.Grows s') (hid : s.definitions.size ≤ id) :
    s.Grows (s'.before id) := by
  refine ⟨fun {j d} hd => ?_⟩
  have hj := (Array.getElem?_eq_some_iff.1 hd).1
  rw [getElem?_before, if_pos (Nat.lt_of_lt_of_le hj hid)]
  exact h.definition hd

theorem Grows.takenOver (h : s.Grows s') (hs' : s'.Ordered) (ht : s.TakenOver t) :
    s'.TakenOver t := by
  obtain ⟨id, hid, hdeclared, hbefore⟩ := ht
  refine ⟨id, h.idOf? hid, hdeclared, ?_⟩
  exact (h.before id).contains (.of_grows (before_grows s' id) hs') hbefore

/-- **A growing system goes on to back a unit.** -/
theorem Sound.backs_of_grows (hs : s.Sound) (h : s.Grows s') (hs' : s'.Ordered)
    (hu : s.Backs u) : s'.Backs u := by
  intro hsymbol
  obtain ⟨hcontains, hdimension⟩ := hu hsymbol
  refine ⟨h.contains hs' hcontains, ?_⟩
  rcases hdimension with htaken | hdimension
  · exact .inl (h.takenOver hs' htaken)
  cases hid : s.idOf? u.symbol with
  | some id =>
    refine .inr fun {id' v} hid' hv => hdimension hid ?_
    rw [h.idOf? hid] at hid'
    cases hid'
    rw [← h.unit?_eq (lt_size_of_idOf? hid)]
    exact hv
  | none =>
    cases hid' : s'.idOf? u.symbol with
    | none => exact .inr nofun
    | some id' =>
      -- The symbol was registered after it had denoted something by a prefix.
      have hsize : s.definitions.size ≤ id' := by
        refine Nat.le_of_not_lt fun hlt => ?_
        have hd := Array.getElem?_eq_getElem hlt
        obtain ⟨d, hd', heq⟩ := idOf?_eq_some_iff.1 hid'
        rw [h.definition hd] at hd'
        cases hd'
        exact idOf?_eq_none_iff.1 hid hd heq
      have hordered : (s'.before id').Ordered := .of_grows (before_grows s' id') hs'
      have hdeclared := Nat.le_trans hs.grows.size_le hsize
      exact .inl ⟨id', hid', hdeclared, (h.to_before hsize).contains hordered hcontains⟩

/-! ## Units that are backed -/

theorem backs_of_not_isSymbol (h : ¬IsSymbol u.symbol) : s.Backs u :=
  fun hsymbol => absurd hsymbol h

/-- Whether a unit is backed depends on its label and its dimension. -/
theorem Backs.congr (h : s.Backs u) (hsymbol : v.symbol = u.symbol)
    (hdimension : v.dimension = u.dimension) : s.Backs v := by
  unfold Backs
  rw [hsymbol, hdimension]
  exact h

/-- The unit that a symbol denotes is backed. -/
theorem backs_of_lookup? (h : s.lookup? t = some u) : s.Backs u := by
  intro _
  rw [symbol_of_lookup? h]
  refine ⟨Option.isSome_iff_exists.2 ⟨u, h⟩, .inr fun {id v} hid hv => ?_⟩
  simp only [lookup?, hid, hv] at h
  cases h
  rfl

theorem backs_plain (s : UnitSystem) : s.Backs .plain := by
  refine backs_of_not_isSymbol fun h => h.1 ?_
  rfl

/-! ## Sound systems -/

theorem isSymbol_international (h : international.definitions[id]? = some d) :
    IsSymbol d.symbol := by
  have hall : ∀ d ∈ standardUnits, d.symbol.toList ≠ [] ∧
      d.symbol.toList.all UnitExpr.isSymbolChar = true := by
    decide +kernel
  rw [getElem?_international] at h
  obtain ⟨hne, hchars⟩ := hall d (List.mem_of_getElem? h)
  exact ⟨hne, List.all_eq_true.1 hchars⟩

theorem sound_international : international.Sound where
  ordered := ordered_international
  symbol := isSymbol_international
  grows := .refl _

/-- One more definition leaves a system sound, if its symbol is new and it is convertible to nothing
but a registered unit. -/
theorem Sound.push (hs : s.Sound) (hnew : s.idOf? d.symbol = none) (hsymbol : IsSymbol d.symbol)
    (hprimary : ∀ primary ∈ d.kind.primary?, primary < s.definitions.size) :
    (s.push d hnew).Sound where
  ordered := hs.ordered.push hprimary
  symbol hd' := by
    rcases Registry.getElem?_definitions_push_eq_some_iff.1 hd' with ⟨-, rfl⟩ | hd'
    · exact hsymbol
    · exact hs.symbol hd'
  grows := hs.grows.trans (grows_push s d hnew)

/-! ## Declarations -/

theorem Sound.declare (hs : s.Sound) {q : Quantity} (h : s.declare t q = (.ok id, s')) :
    s'.Sound := by
  obtain ⟨hsymbol, d, hnew, rfl, -, rfl, hkind⟩ := eq_push_of_declare h
  refine hs.push hnew hsymbol fun p hp => ?_
  rcases hkind with hkind | ⟨primary, hprimary, hkind⟩
  · rw [hkind] at hp
    cases hp
  · rw [hkind] at hp
    cases hp
    exact lt_size_of_idOf? hprimary

/-- **A declaration makes a unit of the dimension of the quantity**, if the unit of the quantity is
backed; but if its label is taken over, the new unit may have the dimension of the unit that has the
label now. -/
theorem dimension_of_declare (hs : s.Sound) {q : Quantity} (hq : s.Backs q.unit)
    (h : s.declare t q = (.ok id, s')) :
    ∃ u, s'.lookup? t = some u ∧ (u.dimension = q.dimension ∨
      s.TakenOver q.unit.symbol ∧ s.dimension? q.unit.symbol = some u.dimension) := by
  obtain ⟨-, d, hnew, rfl, -, rfl, hkind⟩ := eq_push_of_declare h
  have hid : (s.push d hnew).idOf? d.symbol = some s.definitions.size := idOf?_push_symbol
  have hd : (s.push d hnew).definitions[s.definitions.size]? = some d := by
    rw [getElem?_definitions_push, if_pos rfl]
  simp only [lookup?, hid]
  rw [Registry.unit?, hd]
  rcases hkind with hkind | ⟨primary, hprimary, hkind⟩
  · simp only [hkind]
    exact ⟨_, rfl, .inl rfl⟩
  · -- The label is a registered symbol, and the new unit has the dimension of its unit.
    have hlt := lt_size_of_idOf? hprimary
    obtain ⟨v, hv⟩ := Registry.exists_unit? hs.ordered hlt
    simp only [hkind, if_pos hlt, (grows_push s d hnew).unit? hv, Option.map_some]
    refine ⟨_, rfl, ?_⟩
    obtain ⟨d', hd', heq⟩ := idOf?_eq_some_iff.1 hprimary
    obtain ⟨-, htaken | hsame⟩ := hq (heq ▸ hs.symbol hd')
    · refine .inr ⟨htaken, ?_⟩
      rw [dimension?, lookup?, hprimary]
      simp only [hv, Option.map_some]
    · have hdimension : v.dimension = q.dimension := hsame hprimary hv
      exact .inl hdimension

end UnitSystem

end QuantityCalc
