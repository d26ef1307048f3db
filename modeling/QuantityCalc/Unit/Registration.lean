import QuantityCalc.Quantity.Basic
import QuantityCalc.Unit.System

/-!
# Registering units

Each `Registration` adds one definition at the end of a registry and its symbol to the table, or is
refused because the table has the symbol already. It goes step by step, and an error leaves the
registry as it is at that moment. Whether it succeeds or fails, the table remains the index of the
list (`Registry.Indexed.register`), so registrations lead from systems of units to systems of units.
-/

namespace QuantityCalc

/-- A step of a registry that may fail. An error leaves the registry as it is at that moment. -/
abbrev Registering := ExceptT UnitError (StateM Registry)

/-- The result of a step, and the registry after it. -/
def Registering.outcome {α : Type} (m : Registering α) (s : Registry) :
    Except UnitError α × Registry :=
  m.run.run s

namespace Registry

/-- Adds a definition, and tells its index. -/
def register (d : UnitDefinition) : Registering Nat := do
  if ((← get).idOf? d.symbol).isSome then throw (.duplicate d.symbol)
  let id := (← get).definitions.size
  modify fun s => { s with definitions := s.definitions.push d }
  modify fun s => { s with bySymbol := s.bySymbol.insert d.symbol id }
  return id

/-- Adds the coherent unit of a base dimension. -/
def addBase (symbol name : String) (b : BaseDimension) : Registering Nat :=
  register ⟨symbol, name, .base b, true⟩

/-- Adds a coherent unit of a dimension. -/
def addDerived (symbol name : String) (d : Dimension) : Registering Nat :=
  register ⟨symbol, name, .derived d, true⟩

/-- Adds a multiple of the coherent unit of a dimension. -/
def addScaled (symbol name : String) (d : Dimension) (factor : Float) : Registering Nat :=
  register ⟨symbol, name, .scaled d factor, true⟩

/-- Adds a unit that is convertible to a registered one. It takes prefixes if neither of them has an
offset. -/
def addConvertible (symbol name : String) (primary : Nat) (factor offset : Float) :
    Registering Nat := do
  let isAffine := ((← get).unit? primary).any MeasureUnit.isAffine
  register ⟨symbol, name, .convertible primary factor offset, offset == 0 && !isAffine⟩

/-- Declares a unit as equal to a quantity. If the unit of the quantity is registered and has no
offset, the new unit is convertible to it; otherwise it is a multiple of a coherent unit. -/
def declare (symbol : String) (q : Quantity) : Registering Nat := do
  let letters := symbol.toList
  if letters.isEmpty || !letters.all UnitExpr.isSymbolChar then throw (.malformed 0 .notLetters)
  match (← get).idOf? q.unit.symbol, q.unit.isAffine with
  | some primary, false => addConvertible symbol symbol primary q.value 0
  | _, _ => addScaled symbol symbol q.dimension q.coherentValue

end Registry

/-- A unit to be registered, in one of the ways there are. -/
inductive Registration where
  /-- The coherent unit of a base dimension. -/
  | base (symbol name : String) (dimension : BaseDimension)
  /-- A coherent unit of a dimension. -/
  | derived (symbol name : String) (dimension : Dimension)
  /-- A multiple of the coherent unit of a dimension. -/
  | scaled (symbol name : String) (dimension : Dimension) (factor : Float)
  /-- A unit that is convertible to a registered one. -/
  | convertible (symbol name : String) (primary : Nat) (factor offset : Float)
  /-- A unit that is equal to a quantity. -/
  | declaration (symbol : String) (q : Quantity)

/-- Registers a unit, and tells its index. -/
def Registration.run : Registration → Registering Nat
  | base symbol name dimension => Registry.addBase symbol name dimension
  | derived symbol name dimension => Registry.addDerived symbol name dimension
  | scaled symbol name dimension factor => Registry.addScaled symbol name dimension factor
  | convertible symbol name primary factor offset =>
    Registry.addConvertible symbol name primary factor offset
  | declaration symbol q => Registry.declare symbol q

namespace Registering

variable {α β : Type}

@[simp] theorem outcome_bind (m : Registering α) (f : α → Registering β) (s : Registry) :
    outcome (m >>= f) s = match outcome m s with
      | (.ok a, t) => outcome (f a) t
      | (.error e, t) => (.error e, t) := by
  change ExceptT.bindCont f (m s).1 (m s).2 = _
  simp only [outcome, ExceptT.run, StateT.run]
  rcases m s with ⟨_ | _, _⟩ <;> rfl

@[simp] theorem outcome_pure (a : α) (s : Registry) :
    outcome (pure a) s = (.ok a, s) := rfl

@[simp] theorem outcome_throw (e : UnitError) (s : Registry) :
    outcome (throw e : Registering α) s = (.error e, s) := rfl

@[simp] theorem outcome_get (s : Registry) : outcome get s = (.ok s, s) := rfl

@[simp] theorem outcome_modify (f : Registry → Registry) (s : Registry) :
    outcome (modify f) s = (.ok ⟨⟩, f s) := rfl

end Registering

namespace Registry

variable {s : Registry} {d : UnitDefinition}

/-- The registry with one more unit. -/
def push (s : Registry) (d : UnitDefinition) : Registry where
  definitions := s.definitions.push d
  bySymbol := s.bySymbol.insert d.symbol s.definitions.size

/-- A definition is added with its symbol, or it is refused and nothing has changed. -/
theorem outcome_register (s : Registry) (d : UnitDefinition) : (register d).outcome s =
    match s.idOf? d.symbol with
    | some _ => (.error (.duplicate d.symbol), s)
    | none => (.ok s.definitions.size, s.push d) := by
  simp only [register, Registering.outcome_bind, Registering.outcome_get]
  cases s.idOf? d.symbol <;> rfl

theorem idOf?_push (t : String) :
    (s.push d).idOf? t = if d.symbol = t then some s.definitions.size else s.idOf? t := by
  simp only [idOf?, push, Std.TreeMap.getElem?_insert, Std.LawfulEqCmp.compare_eq_iff_eq]

theorem getElem?_definitions_push (id : Nat) : (s.push d).definitions[id]? =
    if id = s.definitions.size then some d else s.definitions[id]? :=
  Array.getElem?_push

/-- One more unit leaves the table the index of the list, if its symbol is new. -/
theorem Indexed.push (hs : s.Indexed) (hnew : s.idOf? d.symbol = none) : (s.push d).Indexed := by
  intro t id
  rw [idOf?_push, getElem?_definitions_push]
  by_cases hid : id = s.definitions.size
  · have hold : s.idOf? t ≠ some id := by
      intro h
      obtain ⟨d', hd', -⟩ := (hs t id).1 h
      exact Nat.lt_irrefl _ (hid ▸ (Array.getElem?_eq_some_iff.1 hd').1)
    by_cases ht : d.symbol = t
    · simp [hid, ht]
    · rw [if_neg ht, if_pos hid]
      exact ⟨fun h => absurd h hold, fun ⟨_, hd, heq⟩ => absurd (Option.some.inj hd ▸ heq) ht⟩
  · have hother : ∀ d', s.definitions[id]? = some d' → d'.symbol ≠ d.symbol := by
      intro d' hd' heq
      rw [(hs d.symbol id).2 ⟨d', hd', heq⟩] at hnew
      cases hnew
    by_cases ht : d.symbol = t
    · subst ht
      rw [if_pos rfl, if_neg hid]
      exact ⟨fun h => absurd (Option.some.inj h).symm hid,
        fun ⟨d', hd', heq⟩ => absurd heq (hother d' hd')⟩
    · rw [if_neg ht, if_neg hid]
      exact hs t id

/-- Whether a step leaves the table the index of the list. -/
def Keeps {α : Type} (m : Registering α) : Prop :=
  ∀ {s : Registry}, s.Indexed → (m.outcome s).2.Indexed

theorem keeps_register (d : UnitDefinition) : Keeps (register d) := by
  intro s hs
  rw [outcome_register]
  split
  next => exact hs
  next hnew => exact hs.push hnew

theorem outcome_addConvertible (s : Registry) (symbol name : String) (primary : Nat)
    (factor offset : Float) : (addConvertible symbol name primary factor offset).outcome s =
      (register ⟨symbol, name, .convertible primary factor offset,
        offset == 0 && !(s.unit? primary).any MeasureUnit.isAffine⟩).outcome s := by
  rw [addConvertible, Registering.outcome_bind, Registering.outcome_get]

theorem keeps_addConvertible (symbol name : String) (primary : Nat) (factor offset : Float) :
    Keeps (addConvertible symbol name primary factor offset) := by
  intro s hs
  rw [outcome_addConvertible]
  exact keeps_register _ hs

theorem keeps_declare (symbol : String) (q : Quantity) : Keeps (declare symbol q) := by
  intro s hs
  simp only [declare]
  split
  · exact hs
  · simp only [Registering.outcome_bind, Registering.outcome_get]
    split
    · exact keeps_addConvertible _ _ _ _ _ hs
    · exact keeps_register _ hs

/-- **Registrations keep the table the index of the list**, whether they succeed or fail. -/
theorem keeps_run (r : Registration) : Keeps r.run := by
  cases r with
  | base symbol name dimension => exact keeps_register _
  | derived symbol name dimension => exact keeps_register _
  | scaled symbol name dimension factor => exact keeps_register _
  | convertible symbol name primary factor offset => exact keeps_addConvertible _ _ _ _ _
  | declaration symbol q => exact keeps_declare symbol q

theorem indexed_empty : Indexed {} := by
  intro t id
  simp [idOf?]

/-- The registry with further definitions, as far as their symbols are new. -/
def registerAll (s : Registry) (ds : List UnitDefinition) : Registry :=
  ds.foldl (fun s d => ((register d).outcome s).2) s

theorem Indexed.registerAll (hs : s.Indexed) (ds : List UnitDefinition) :
    (s.registerAll ds).Indexed := by
  induction ds generalizing s with
  | nil => exact hs
  | cons d ds ih => exact ih (keeps_register d hs)

end Registry

namespace UnitSystem

/-- The system of some definitions, as far as their symbols are distinct. -/
def ofDefinitions (name : String) (ds : List UnitDefinition) : UnitSystem where
  toRegistry := Registry.registerAll {} ds
  name := name
  indexed := Registry.indexed_empty.registerAll ds

/-- The result of a registration, and the system after it. -/
def add (s : UnitSystem) (r : Registration) : Except UnitError Nat × UnitSystem :=
  let outcome := r.run.outcome s.toRegistry
  (outcome.1,
    { toRegistry := outcome.2, name := s.name, indexed := Registry.keeps_run r s.indexed })

/-- The result of declaring a unit as equal to a quantity, and the system after it. -/
def declare (s : UnitSystem) (symbol : String) (q : Quantity) : Except UnitError Nat × UnitSystem :=
  s.add (.declaration symbol q)

end UnitSystem

end QuantityCalc
