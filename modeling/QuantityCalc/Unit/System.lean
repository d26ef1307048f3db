import QuantityCalc.Decimal.Basic
import QuantityCalc.Unit.Basic
import QuantityCalc.Unit.Reading
import Std.Data.TreeMap

/-!
# Systems of units

The units of a system are kept in a `Registry`: the list of their definitions, which only grows, and
a table of their symbols beside it. A definition is addressed by its index. A convertible unit
refers to its primary unit by index, and a primary unit stands before all units that refer to it.

In a `UnitSystem` the table is the index of the list (`Registry.Indexed`). A symbol is resolved as
it stands, or else as a metric prefix and the symbol of a unit that takes prefixes.
-/

namespace QuantityCalc

/-- What a registered unit is. -/
inductive UnitKind where
  /-- The coherent unit of a base dimension. -/
  | base (dimension : BaseDimension)
  /-- The coherent unit of a dimension. -/
  | derived (dimension : Dimension)
  /-- A unit with `primary = value * factor + offset`. -/
  | convertible (primary : Nat) (factor offset : Float)
  /-- A multiple of the coherent unit of a dimension. -/
  | scaled (dimension : Dimension) (factor : Float)

/-- The dimension whose coherent unit a unit is. -/
def UnitKind.coherentFor? : UnitKind → Option Dimension
  | .base b => some (.base b)
  | .derived dimension => some dimension
  | .convertible .. => none
  | .scaled .. => none

/-- A registered unit. -/
structure UnitDefinition where
  /-- The symbol. -/
  symbol : String
  /-- The name. -/
  name : String
  /-- What the unit is. -/
  kind : UnitKind
  /-- Whether the symbol takes metric prefixes. -/
  prefixable : Bool

/-- A metric prefix: its symbol and its factor. -/
structure MetricPrefix where
  /-- The symbol. -/
  symbol : String
  /-- The factor. -/
  factor : Float

/-- The metric prefixes in the order in which they are tried. The one with two letters comes first,
so that it wins over its first letter. -/
def metricPrefixes : List MetricPrefix :=
  [⟨"da", 1e1⟩, ⟨"Y", 1e24⟩, ⟨"Z", 1e21⟩, ⟨"E", 1e18⟩, ⟨"P", 1e15⟩, ⟨"T", 1e12⟩, ⟨"G", 1e9⟩,
   ⟨"M", 1e6⟩, ⟨"k", 1e3⟩, ⟨"h", 1e2⟩, ⟨"d", 1e-1⟩, ⟨"c", 1e-2⟩, ⟨"m", 1e-3⟩, ⟨"µ", 1e-6⟩,
   ⟨"u", 1e-6⟩, ⟨"n", 1e-9⟩, ⟨"p", 1e-12⟩, ⟨"f", 1e-15⟩, ⟨"a", 1e-18⟩, ⟨"z", 1e-21⟩,
   ⟨"y", 1e-24⟩]

/-- Units and the table of their symbols. -/
structure Registry where
  /-- The definitions, in the order of their registration. -/
  definitions : Array UnitDefinition := #[]
  /-- The indices of the symbols. -/
  bySymbol : Std.TreeMap String Nat := ∅

namespace Registry

/-- The index under which the table has a symbol. -/
def idOf? (s : Registry) (symbol : String) : Option Nat := s.bySymbol[symbol]?

/-- The unit with an index. -/
def unit? (s : Registry) (id : Nat) : Option MeasureUnit :=
  match s.definitions[id]? with
  | none => none
  | some d =>
    match d.kind with
    | .base b => some ⟨d.symbol, .base b, 1, 0, .named⟩
    | .derived dimension => some ⟨d.symbol, dimension, 1, 0, .named⟩
    | .scaled dimension factor => some ⟨d.symbol, dimension, factor, 0, .named⟩
    | .convertible primary factor offset =>
      if primary < id then
        (s.unit? primary).map fun p =>
          ⟨d.symbol, p.dimension, factor * p.factor, offset * p.factor + p.offset, .named⟩
      else none
termination_by id

/-- The first registered coherent unit of a dimension. Plain numbers have none. -/
def namedFor? (s : Registry) (d : Dimension) : Option MeasureUnit :=
  if d = .one then none
  else
    (s.definitions.findIdx? fun u => u.kind.coherentFor? = some d).bind s.unit?

/-- Whether the list and the table are inverse to each other: the table has the index of every
definition under its symbol, and has nothing else. -/
def Indexed (s : Registry) : Prop :=
  ∀ (t : String) (id : Nat), s.idOf? t = some id ↔
    ∃ d : UnitDefinition, s.definitions[id]? = some d ∧ d.symbol = t

end Registry

/-- A system of units. -/
structure UnitSystem extends Registry where
  /-- The name. -/
  name : String
  /-- Every unit is found by its symbol. -/
  indexed : toRegistry.Indexed

namespace UnitSystem

/-- The unit that a registered symbol with a prefix denotes. -/
def prefixed? (s : UnitSystem) (symbol : String) (p : MetricPrefix) : Option MeasureUnit := do
  let rest ← Text.dropLead? p.symbol.toList symbol.toList
  let id ← s.idOf? (String.ofList rest)
  let d ← s.definitions[id]?
  if d.prefixable then
    let u ← s.unit? id
    return { u with symbol := symbol, factor := u.factor * p.factor, origin := .named }
  else none

/-- The unit that a symbol denotes. -/
def lookup? (s : UnitSystem) (symbol : String) : Option MeasureUnit :=
  match s.idOf? symbol with
  | some id => s.unit? id
  | none => metricPrefixes.findSome? (s.prefixed? symbol)

/-- Whether a symbol denotes a unit. -/
def contains (s : UnitSystem) (symbol : String) : Bool := (s.lookup? symbol).isSome

end UnitSystem

end QuantityCalc
