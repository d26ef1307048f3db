import QuantityCalc.Proofs.Unit.Growth
import QuantityCalc.Unit.International

/-!
# What a registration changes

A registration that succeeds adds one definition, whose symbol was not registered; a registration
that is refused changes nothing (`Registry.outcome_run`). Every symbol that was registered goes on
to denote its unit. A symbol that is read with a prefix does so too, with two exceptions: a
registered symbol goes before any prefix, and the prefix `da` goes before `d`. So a unit captures
`t` if its symbol is `t`, or follows `da` in `t`.
-/

namespace QuantityCalc

/-- Whether a text can be the symbol of a unit: it consists of letters and degree signs. -/
def IsSymbol (t : String) : Prop :=
  t.toList ≠ [] ∧ ∀ c ∈ t.toList, UnitExpr.isSymbolChar c = true

namespace Registration

/-- The symbol of the unit to be registered. -/
def symbol : Registration → String
  | .base symbol .. | .derived symbol .. | .scaled symbol .. | .convertible symbol ..
  | .declaration symbol _ => symbol

/-- The unit to which a registration refers by its index. -/
def primary? : Registration → Option Nat
  | .convertible _ _ primary _ _ => some primary
  | .base .. | .derived .. | .scaled .. | .declaration .. => none

end Registration

namespace Registry

variable {s : Registry} {d : UnitDefinition} {id : Nat}

/-! ## Definitions -/

/-- A declaration registers a unit that is convertible to the one that has the label of the
quantity, or a multiple of a coherent unit, unless it is a declaration of something that is not a
symbol. -/
theorem outcome_declare (s : Registry) (symbol : String) (q : Quantity) :
    (IsSymbol symbol ∧ ∃ d : UnitDefinition, d.symbol = symbol ∧
      (declare symbol q).outcome s = (register d).outcome s ∧
      (d.kind = .scaled q.dimension q.coherentValue ∨
        ∃ primary, s.idOf? q.unit.symbol = some primary ∧
          d.kind = .convertible primary q.value 0)) ∨
    ¬IsSymbol symbol ∧ (declare symbol q).outcome s = (.error (.malformed 0 .notLetters), s) := by
  simp only [declare]
  split
  next hletters =>
    rw [Bool.or_eq_true, List.isEmpty_iff, Bool.not_eq_true', ← Bool.not_eq_true,
      List.all_eq_true] at hletters
    exact .inr ⟨fun hsymbol => hletters.elim hsymbol.1 (absurd hsymbol.2), rfl⟩
  next hletters =>
    obtain ⟨hne, hchars⟩ := not_or.1 (Bool.or_eq_true _ _ ▸ hletters)
    rw [Bool.not_eq_true, Bool.not_eq_false'] at hchars
    have hsymbol : IsSymbol symbol :=
      ⟨fun hnil => hne (List.isEmpty_iff.2 hnil), List.all_eq_true.1 hchars⟩
    refine .inl ⟨hsymbol, ?_⟩
    simp only [Registering.outcome_bind, Registering.outcome_get]
    split
    next primary hprimary _ =>
      exact ⟨_, rfl, outcome_addConvertible .., .inr ⟨primary, hprimary, rfl⟩⟩
    next => exact ⟨_, rfl, rfl, .inl rfl⟩

/-- A registration registers a definition, unless it is a declaration of something that is not a
symbol. The definition refers to a unit only if the registration does, or it refers to the unit of
the quantity. -/
theorem outcome_run_eq (s : Registry) (r : Registration) :
    (∃ d : UnitDefinition, d.symbol = r.symbol ∧ r.run.outcome s = (register d).outcome s ∧
      ∀ primary ∈ d.kind.primary?, primary ∈ r.primary? ∨ ∃ t, s.idOf? t = some primary) ∨
    ¬IsSymbol r.symbol ∧ r.run.outcome s = (.error (.malformed 0 .notLetters), s) := by
  cases r with
  | base symbol name dimension => exact .inl ⟨_, rfl, rfl, by rintro _ ⟨⟩⟩
  | derived symbol name dimension => exact .inl ⟨_, rfl, rfl, by rintro _ ⟨⟩⟩
  | scaled symbol name dimension factor => exact .inl ⟨_, rfl, rfl, by rintro _ ⟨⟩⟩
  | convertible symbol name primary factor offset =>
    exact .inl ⟨_, rfl, outcome_addConvertible .., fun _ hp => .inl hp⟩
  | declaration symbol q =>
    rcases outcome_declare s symbol q with ⟨-, d, hsymbol, hrun, hkind⟩ | hrefused
    · refine .inl ⟨d, hsymbol, hrun, fun p hp => .inr ?_⟩
      rcases hkind with hkind | ⟨primary, hprimary, hkind⟩
      · rw [hkind] at hp
        cases hp
      · rw [hkind] at hp
        cases hp
        exact ⟨_, hprimary⟩
    · exact .inr hrefused

/-- **A registration adds one definition, or it is refused and changes nothing.** It is refused only
if the symbol is registered already, or if something that is not a symbol is declared. -/
theorem outcome_run (s : Registry) (r : Registration) :
    (∃ d : UnitDefinition, d.symbol = r.symbol ∧ s.idOf? r.symbol = none ∧
      (∀ primary ∈ d.kind.primary?, primary ∈ r.primary? ∨ ∃ t, s.idOf? t = some primary) ∧
      r.run.outcome s = (.ok s.definitions.size, s.push d)) ∨
    ∃ e, (s.idOf? r.symbol ≠ none ∨ ¬IsSymbol r.symbol) ∧ r.run.outcome s = (.error e, s) := by
  rcases outcome_run_eq s r with ⟨d, hsymbol, hrun, hprimary⟩ | ⟨hsymbol, hrun⟩
  · rw [hrun, outcome_register, hsymbol]
    cases hid : s.idOf? r.symbol with
    | some id => exact .inr ⟨_, .inl (Option.some_ne_none id), rfl⟩
    | none => exact .inl ⟨d, hsymbol, rfl, hprimary, rfl⟩
  · exact .inr ⟨_, .inr hsymbol, hrun⟩

/-! ## One definition more -/

theorem getElem?_definitions_push_eq_some_iff {d' : UnitDefinition} :
    (s.push d).definitions[id]? = some d' ↔
      id = s.definitions.size ∧ d' = d ∨ s.definitions[id]? = some d' := by
  rw [getElem?_definitions_push]
  split
  next heq =>
    subst heq
    simp [eq_comm]
  next hne => simp [hne]

theorem grows_push (s : Registry) (d : UnitDefinition) : s.Grows (s.push d) :=
  ⟨fun hd => getElem?_definitions_push_eq_some_iff.2 (.inr hd)⟩

/-- One more definition leaves a system ordered, if it is convertible to nothing but a registered
unit. -/
theorem Ordered.push (hs : s.Ordered)
    (hprimary : ∀ primary ∈ d.kind.primary?, primary < s.definitions.size) :
    (s.push d).Ordered := by
  intro id d' primary hd' hkind
  rcases getElem?_definitions_push_eq_some_iff.1 hd' with ⟨rfl, rfl⟩ | hd'
  · exact hprimary primary hkind
  · exact hs hd' hkind

/-- Definitions with distinct symbols are all added. -/
theorem definitions_registerAll {ds : List UnitDefinition} (hs : s.Indexed)
    (hnodup : (ds.map (·.symbol)).Nodup) (hnew : ∀ d ∈ ds, s.idOf? d.symbol = none) :
    (s.registerAll ds).definitions = s.definitions ++ ds := by
  induction ds generalizing s with
  | nil => simp [registerAll]
  | cons d ds ih =>
    obtain ⟨hfirst, hnodup⟩ := List.nodup_cons.1 hnodup
    have hd := hnew d List.mem_cons_self
    have hregister : ((register d).outcome s).2 = s.push d := by
      rw [outcome_register, hd]
    have hpush : ∀ d' ∈ ds, (s.push d).idOf? d'.symbol = none := by
      intro d' hd'
      have hne : d.symbol ≠ d'.symbol := fun heq => hfirst (List.mem_map.2 ⟨d', hd', heq.symm⟩)
      rw [idOf?_push, if_neg hne]
      exact hnew d' (List.mem_cons_of_mem _ hd')
    have hall := ih (hs.push hd) hnodup hpush
    rw [registerAll, List.foldl_cons, hregister]
    rw [registerAll] at hall
    rw [hall]
    simp [push]

end Registry

namespace UnitSystem

variable {s s' : UnitSystem} {id n : Nat} {d : UnitDefinition} {r : Registration} {t : String}
  {u : MeasureUnit} {p : MetricPrefix}

/-- The system with one more unit, whose symbol is new. -/
def push (s : UnitSystem) (d : UnitDefinition) (hnew : s.idOf? d.symbol = none) : UnitSystem where
  toRegistry := s.toRegistry.push d
  name := s.name
  indexed := s.indexed.push hnew

/-- Whether a unit captures a symbol that has been read with a prefix: it is the symbol of the unit,
or the unit takes prefixes and it is `da` and the symbol of the unit. -/
def Captures (s : UnitSystem) (d : UnitDefinition) (t : String) : Prop :=
  s.idOf? t = none ∧ (t = d.symbol ∨ d.prefixable = true ∧ t = "da" ++ d.symbol)

theorem definitions_ofDefinitions {name : String} {ds : List UnitDefinition}
    (hnodup : (ds.map (·.symbol)).Nodup) : (ofDefinitions name ds).definitions = ds.toArray := by
  have hdefinitions := Registry.definitions_registerAll Registry.indexed_empty hnodup
    fun d _ => Std.TreeMap.getElem?_emptyc
  rw [ofDefinitions, hdefinitions]
  simp

/-! ## One unit more -/

/-- What a step does to the registry of a system, a registration does to the system. -/
theorem add_of_outcome (r : Registration) (s' : UnitSystem) {x : Except UnitError Nat}
    (h : r.run.outcome s.toRegistry = (x, s'.toRegistry)) (hname : s'.name = s.name) :
    s.add r = (x, s') := by
  obtain ⟨registry, name, hindexed⟩ := s'
  cases hname
  simp only [add, h]

/-- A registration that succeeds adds one definition, whose symbol was not registered. -/
theorem eq_push_of_add (h : s.add r = (.ok id, s')) :
    ∃ d, ∃ hnew : s.idOf? d.symbol = none, id = s.definitions.size ∧ s' = s.push d hnew := by
  rcases Registry.outcome_run s.toRegistry r with ⟨d, hsymbol, hnew, -, hrun⟩ | ⟨e, -, hrun⟩
  · have hadd := add_of_outcome r (s.push d (hsymbol ▸ hnew)) hrun rfl
    cases h.symm.trans hadd
    exact ⟨d, hsymbol ▸ hnew, rfl, rfl⟩
  · cases h.symm.trans (add_of_outcome r s hrun rfl)

/-- What a declaration adds: a unit that is convertible to the one that the label of the quantity
denotes, or a multiple of a coherent unit. -/
theorem eq_push_of_declare {q : Quantity} (h : s.declare t q = (.ok id, s')) :
    IsSymbol t ∧ ∃ d, ∃ hnew : s.idOf? d.symbol = none,
      d.symbol = t ∧ id = s.definitions.size ∧ s' = s.push d hnew ∧
      (d.kind = .scaled q.dimension q.coherentValue ∨
        ∃ primary, s.idOf? q.unit.symbol = some primary ∧
          d.kind = .convertible primary q.value 0) := by
  rcases Registry.outcome_declare s.toRegistry t q with
    ⟨hsymbol, d, rfl, hrun, hkind⟩ | ⟨-, hrun⟩
  · rw [Registry.outcome_register] at hrun
    cases hid : s.idOf? d.symbol with
    | some id' =>
      rw [hid] at hrun
      cases h.symm.trans (add_of_outcome (.declaration _ q) s hrun rfl)
    | none =>
      rw [hid] at hrun
      cases h.symm.trans (add_of_outcome (.declaration _ q) (s.push d hid) hrun rfl)
      exact ⟨hsymbol, d, hid, rfl, rfl, rfl, hkind⟩
  · cases h.symm.trans (add_of_outcome (.declaration _ q) s hrun rfl)

/-- A registration that is refused leaves the system as it is. -/
theorem eq_of_add_error {e : UnitError} (h : s.add r = (.error e, s')) : s' = s := by
  rcases Registry.outcome_run s.toRegistry r with ⟨d, hsymbol, hnew, -, hrun⟩ | ⟨e', -, hrun⟩
  · cases h.symm.trans (add_of_outcome r (s.push d (hsymbol ▸ hnew)) hrun rfl)
  · cases h.symm.trans (add_of_outcome r s hrun rfl)
    rfl

variable {hnew : s.idOf? d.symbol = none}

theorem getElem?_definitions_push {j : Nat} :
    (s.push d hnew).definitions[j]? =
      if j = s.definitions.size then some d else s.definitions[j]? :=
  Registry.getElem?_definitions_push j

theorem grows_push (s : UnitSystem) (d : UnitDefinition) (hnew : s.idOf? d.symbol = none) :
    s.Grows (s.push d hnew) :=
  Registry.grows_push s.toRegistry d

theorem grows_of_add (h : s.add r = (.ok id, s')) : s.Grows s' := by
  obtain ⟨d, hnew, -, rfl⟩ := eq_push_of_add h
  exact grows_push s d hnew

/-! ## Symbols -/

/-- The symbol of the new unit gets the index of that unit. -/
theorem idOf?_push_symbol : (s.push d hnew).idOf? d.symbol = some s.definitions.size :=
  (Registry.idOf?_push d.symbol).trans (if_pos rfl)

/-- Only the symbol of the new unit gets an index. -/
theorem idOf?_push_of_ne (hne : t ≠ d.symbol) : (s.push d hnew).idOf? t = s.idOf? t :=
  (Registry.idOf?_push t).trans (if_neg hne.symm)

/-- A symbol that was not registered is now that of the new unit. -/
theorem eq_of_idOf?_push (hnone : s.idOf? t = none) (hid : (s.push d hnew).idOf? t = some id) :
    t = d.symbol ∧ id = s.definitions.size := by
  by_cases ht : t = d.symbol
  · subst ht
    rw [idOf?_push_symbol] at hid
    exact ⟨rfl, (Option.some.inj hid).symm⟩
  · rw [idOf?_push_of_ne ht, hnone] at hid
    cases hid

/-- A prefix makes nothing more of a symbol, unless the symbol of the new unit follows it. -/
theorem prefixed?_of_push (hnone : s.prefixed? t p = none)
    (hu : (s.push d hnew).prefixed? t p = some u) :
    d.prefixable = true ∧ t = p.symbol ++ d.symbol := by
  obtain ⟨w, id, d', v, ht, hid', hd', hprefixable, hv, rfl⟩ := prefixed?_eq_some_iff.1 hu
  cases hid : s.idOf? w with
  | none =>
    obtain ⟨rfl, rfl⟩ := eq_of_idOf?_push hid hid'
    rw [getElem?_definitions_push, if_pos rfl] at hd'
    cases hd'
    exact ⟨hprefixable, ht⟩
  | some id₀ =>
    -- What follows the prefix was registered, so the prefix made a unit of it before.
    have hgrows := grows_push s d hnew
    obtain rfl : id₀ = id := Option.some.inj ((hgrows.idOf? hid).symm.trans hid')
    have hlt := lt_size_of_idOf? hid
    rw [getElem?_definitions_push, if_neg (Nat.ne_of_lt hlt)] at hd'
    rw [hgrows.unit?_eq hlt] at hv
    have hsome := prefixed?_eq_some_iff.2 ⟨w, id₀, d', v, ht, hid, hd', hprefixable, hv, rfl⟩
    rw [hnone] at hsome
    cases hsome

/-! ## Symbols with a prefix -/

/-- Of two prefixes with the same first letter, the one that is tried first is `da`. -/
theorem pairwise_metricPrefixes :
    metricPrefixes.Pairwise fun p q =>
      p.symbol.toList.head? = q.symbol.toList.head? → p.symbol = "da" := by
  simp [metricPrefixes]

theorem toList_ne_nil_of_mem (h : p ∈ metricPrefixes) : p.symbol.toList ≠ [] := by
  revert p
  simp [metricPrefixes]

/-- Two prefixes of one symbol have the same first letter. -/
theorem head?_eq_of_append {q : MetricPrefix} {v w : String} (hp : p ∈ metricPrefixes)
    (hq : q ∈ metricPrefixes) (h : p.symbol ++ v = q.symbol ++ w) :
    p.symbol.toList.head? = q.symbol.toList.head? := by
  have hhead := congrArg (·.toList.head?) h
  simp only [String.toList_append, List.head?_append] at hhead
  rwa [Option.or_of_isSome, Option.or_of_isSome] at hhead
  · exact List.isSome_head?.2 (toList_ne_nil_of_mem hq)
  · exact List.isSome_head?.2 (toList_ne_nil_of_mem hp)

/-- **A registration leaves the meaning of a symbol as it was, unless the new unit captures it.** -/
theorem lookup?_of_push (hu : s.lookup? t = some u) :
    (s.push d hnew).lookup? t = some u ∨ s.Captures d t := by
  have hgrows := grows_push s d hnew
  cases hid : s.idOf? t with
  | some id => exact .inl (hgrows.lookup?_of_idOf? hid hu)
  | none =>
    by_cases hcap : s.Captures d t
    · exact .inr hcap
    left
    have hne : t ≠ d.symbol := fun heq => hcap ⟨hid, .inl heq⟩
    simp only [lookup?, hid] at hu
    simp only [lookup?, idOf?_push_of_ne hne, hid]
    obtain ⟨before, p, behind, hsplit, hp, hbefore⟩ := List.findSome?_eq_some_iff.1 hu
    refine List.findSome?_eq_some_iff.2 ⟨before, p, behind, hsplit, hgrows.prefixed? hp, ?_⟩
    -- A prefix that is tried before and is followed by the new symbol could only be `da`.
    intro q hq
    refine Option.eq_none_iff_forall_ne_some.2 fun v hv => hcap ⟨hid, .inr ?_⟩
    obtain ⟨hprefixable, ht⟩ := prefixed?_of_push (hbefore q hq) hv
    obtain ⟨w, -, -, -, ht', -⟩ := prefixed?_eq_some_iff.1 hp
    have hhead := head?_eq_of_append (hsplit ▸ List.mem_append_left _ hq)
      (hsplit ▸ List.mem_append_right _ List.mem_cons_self) (ht.symm.trans ht')
    have hpairwise := List.pairwise_append.1 (hsplit ▸ pairwise_metricPrefixes)
    exact ⟨hprefixable, hpairwise.2.2 q hq p List.mem_cons_self hhead ▸ ht⟩

/-- **Registering a unit leaves every symbol its meaning, apart from those with a prefix that the
unit captures.** -/
theorem denotes_of_add (h : s.add r = (.ok id, s')) (hu : s.lookup? t = some u) :
    s'.lookup? t = some u ∨ ∃ d, s'.definitions[id]? = some d ∧ s.Captures d t := by
  obtain ⟨d, hnew, rfl, rfl⟩ := eq_push_of_add h
  refine (lookup?_of_push hu).imp_right fun hcap => ⟨d, ?_, hcap⟩
  rw [getElem?_definitions_push, if_pos rfl]

/-! ## The international system -/

theorem getElem?_international : international.definitions[id]? = standardUnits[id]? := by
  rw [international, definitions_ofDefinitions nodup_standardUnits, List.getElem?_toArray]

theorem idOf?_international : international.idOf? t =
    (baseUnits ++ derivedUnits ++ convertibleUnits ++ scaledUnits).findIdx? (·.symbol = t) := by
  change _ = standardUnits.findIdx? (·.symbol = t)
  cases hid : standardUnits.findIdx? (·.symbol = t) with
  | none =>
    refine idOf?_eq_none_iff.2 fun {j d} hd => ?_
    rw [getElem?_international] at hd
    simpa using List.findIdx?_eq_none_iff.1 hid d (List.mem_of_getElem? hd)
  | some id =>
    obtain ⟨hlt, hsymbol, -⟩ := List.findIdx?_eq_some_iff_getElem.1 hid
    refine idOf?_eq_some_iff.2 ⟨standardUnits[id], ?_, of_decide_eq_true hsymbol⟩
    rw [getElem?_international, List.getElem?_eq_getElem hlt]

theorem ordered_international : international.Ordered := by
  have hall : ∀ x ∈ standardUnits.zipIdx, ∀ primary ∈ x.1.kind.primary?, primary < x.2 := by
    decide +kernel
  intro id d primary hd hprimary
  rw [getElem?_international] at hd
  exact hall (d, id) (List.mk_mem_zipIdx_iff_getElem?.2 hd) primary hprimary

theorem unit?_metre : international.unit? metre = some ⟨"m", .base .length, 1, 0, .named⟩ := by
  rw [Registry.unit?, getElem?_international]
  rfl

theorem lookup?_kilometre : international.lookup? "km" =
    some ⟨"km", .base .length, 1 * 1e3, 0, .named⟩ := by
  have hid : international.idOf? "m" = some metre := by
    simp [idOf?_international, baseUnits, List.findIdx?_cons, metre]
  have hd : international.definitions[metre]? = some ⟨"m", "metre", .base .length, true⟩ :=
    getElem?_international
  have hnone : international.idOf? "km" = none := by
    simp [idOf?_international, baseUnits, derivedUnits, convertibleUnits, scaledUnits]
  simp [lookup?, hnone, metricPrefixes, prefixed?, Text.dropLead?, hid, hd, unit?_metre]

theorem unit?_pascal : international.unit? pascal =
    some ⟨"Pa", { mass := 1, length := -1, time := -2 }, 1, 0, .named⟩ := by
  rw [Registry.unit?, getElem?_international]
  rfl

theorem add_derived (name : String) (dimension : Dimension) (hnew : s.idOf? t = none) :
    s.add (.derived t name dimension) =
      (.ok s.definitions.size, s.push ⟨t, name, .derived dimension, true⟩ hnew) := by
  refine add_of_outcome _ _ ?_ rfl
  refine (Registry.outcome_register s.toRegistry ⟨t, name, .derived dimension, true⟩).trans ?_
  rw [hnew]
  rfl

theorem unit?_derived {name : String} {dimension : Dimension} {prefixable : Bool}
    (hnew : s.idOf? t = none) :
    (s.push ⟨t, name, .derived dimension, prefixable⟩ hnew).unit? s.definitions.size =
      some ⟨t, dimension, 1, 0, .named⟩ := by
  rw [Registry.unit?, getElem?_definitions_push, if_pos rfl]

theorem denotes_of_add_sample : ∃ id s',
    international.add (.derived "yard" "yard" (.base .length)) = (.ok id, s') ∧
      international.lookup? "km" = some ⟨"km", .base .length, 1 * 1e3, 0, .named⟩ ∧
      s'.lookup? "km" = some ⟨"km", .base .length, 1 * 1e3, 0, .named⟩ := by
  have hnew : international.idOf? "yard" = none := by
    simp [idOf?_international, baseUnits, derivedUnits, convertibleUnits, scaledUnits]
  have hadd := add_derived "yard" (.base .length) hnew
  refine ⟨_, _, hadd, lookup?_kilometre, ?_⟩
  rcases denotes_of_add hadd lookup?_kilometre with hu | ⟨d, hd, -, hcap⟩
  · exact hu
  · rw [getElem?_definitions_push, if_pos rfl] at hd
    cases hd
    rcases hcap with heq | ⟨-, heq⟩ <;> exact absurd heq (by decide)

/-- The dimension of the unit that a symbol denotes. -/
def dimension? (s : UnitSystem) (t : String) : Option Dimension :=
  (s.lookup? t).map (·.dimension)

/-- A new unit may capture kilometres by its symbol, and tenths of an atmosphere by its symbol
behind `da`. -/
theorem captured_prefixes :
    (∃ id s', international.add (.derived "km" "" { time := 1 }) = (.ok id, s') ∧
      international.dimension? "km" = some { length := 1 } ∧
        s'.dimension? "km" = some { time := 1 }) ∧
    ∃ id s', international.add (.derived "tm" "" { time := 1 }) = (.ok id, s') ∧
      international.dimension? "datm" = some { mass := 1, length := -1, time := -2 } ∧
        s'.dimension? "datm" = some { time := 1 } := by
  have hkm : international.idOf? "km" = none := by
    simp [idOf?_international, baseUnits, derivedUnits, convertibleUnits, scaledUnits]
  have htm : international.idOf? "tm" = none := by
    simp [idOf?_international, baseUnits, derivedUnits, convertibleUnits, scaledUnits]
  have hdatm : international.idOf? "datm" = none := by
    simp [idOf?_international, baseUnits, derivedUnits, convertibleUnits, scaledUnits]
  refine ⟨⟨_, _, add_derived _ _ hkm, ?_, ?_⟩, ⟨_, _, add_derived _ _ htm, ?_, ?_⟩⟩
  · rw [dimension?, lookup?_kilometre]
    rfl
  · rw [dimension?, lookup?, idOf?_push_symbol]
    simp only [unit?_derived hkm]
    rfl
  · have hid : international.idOf? "atm" = some 32 := by
      simp [idOf?_international, baseUnits, derivedUnits, convertibleUnits, scaledUnits,
        List.findIdx?_cons]
    have hd : international.definitions[32]? =
        some ⟨"atm", "atmosphere", .convertible pascal 101325 0, true⟩ := getElem?_international
    have hatm : (international.unit? 32).map (·.dimension) =
        some { mass := 1, length := -1, time := -2 } := by
      rw [Registry.unit?, hd]
      simp [unit?_pascal, show pascal < 32 by decide]
    obtain ⟨v, hv, hdimension⟩ := Option.map_eq_some_iff.1 hatm
    simp [dimension?, lookup?, hdatm, metricPrefixes, prefixed?, Text.dropLead?, htm, hid, hd, hv,
      hdimension]
  · have hid : (international.push ⟨"tm", "", .derived { time := 1 }, true⟩ htm).idOf? "tm" =
        some international.definitions.size := idOf?_push_symbol
    rw [dimension?, lookup?, idOf?_push_of_ne (by decide), hdatm]
    simp [metricPrefixes, prefixed?, Text.dropLead?, hid, getElem?_definitions_push,
      unit?_derived htm]

end UnitSystem

end QuantityCalc
