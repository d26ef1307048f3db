import QuantityCalc.Unit.Registration

/-!
# The international system

The system with which each session starts: the seven base units, the named derived units, and common
units that are convertible to them or are multiples of them.
-/

namespace QuantityCalc.UnitSystem

/-- The base units. Their indices are those of the base dimensions. The kilogram has a prefix
already, so prefixes go on the gram. -/
def baseUnits : List UnitDefinition :=
  [⟨"m", "metre", .base .length, true⟩,
   ⟨"Kg", "kilogram", .base .mass, false⟩,
   ⟨"s", "second", .base .time, true⟩,
   ⟨"A", "ampere", .base .current, true⟩,
   ⟨"K", "kelvin", .base .temperature, true⟩,
   ⟨"mol", "mole", .base .amount, true⟩,
   ⟨"cd", "candela", .base .luminosity, true⟩]

/-- The derived units with names of their own. -/
def derivedUnits : List UnitDefinition :=
  [⟨"Hz", "hertz", .derived { time := -1 }, true⟩,
   ⟨"N", "newton", .derived { mass := 1, length := 1, time := -2 }, true⟩,
   ⟨"Pa", "pascal", .derived { mass := 1, length := -1, time := -2 }, true⟩,
   ⟨"J", "joule", .derived { mass := 1, length := 2, time := -2 }, true⟩,
   ⟨"W", "watt", .derived { mass := 1, length := 2, time := -3 }, true⟩,
   ⟨"C", "coulomb", .derived { current := 1, time := 1 }, true⟩,
   ⟨"V", "volt", .derived { mass := 1, length := 2, time := -3, current := -1 }, true⟩,
   ⟨"F", "farad", .derived { mass := -1, length := -2, time := 4, current := 2 }, true⟩,
   ⟨"Ohm", "ohm", .derived { mass := 1, length := 2, time := -3, current := -2 }, true⟩,
   ⟨"S", "siemens", .derived { mass := -1, length := -2, time := 3, current := 2 }, true⟩,
   ⟨"Wb", "weber", .derived { mass := 1, length := 2, time := -2, current := -1 }, true⟩,
   ⟨"T", "tesla", .derived { mass := 1, time := -2, current := -1 }, true⟩,
   ⟨"H", "henry", .derived { mass := 1, length := 2, time := -2, current := -2 }, true⟩,
   ⟨"kat", "katal", .derived { amount := 1, time := -1 }, true⟩]

/-- The indices of the units to which others are convertible. -/
def metre : Nat := 0
@[inherit_doc metre] def kilogram : Nat := 1
@[inherit_doc metre] def second : Nat := 2
@[inherit_doc metre] def kelvin : Nat := 4
@[inherit_doc metre] def pascal : Nat := 9
@[inherit_doc metre] def joule : Nat := 10

/-- The units that are convertible to base and derived units. Degrees are shifted and so take no
prefixes. -/
def convertibleUnits : List UnitDefinition :=
  [⟨"g", "gram", .convertible kilogram 1e-3 0, true⟩,
   ⟨"t", "tonne", .convertible kilogram 1e3 0, true⟩,
   ⟨"min", "minute", .convertible second 60 0, true⟩,
   ⟨"h", "hour", .convertible second 3600 0, true⟩,
   ⟨"d", "day", .convertible second 86400 0, true⟩,
   ⟨"in", "inch", .convertible metre 0.0254 0, true⟩,
   ⟨"ft", "foot", .convertible metre 0.3048 0, true⟩,
   ⟨"mi", "mile", .convertible metre 1609.344 0, true⟩,
   ⟨"°C", "degree Celsius", .convertible kelvin 1 273.15, false⟩,
   ⟨"°F", "degree Fahrenheit", .convertible kelvin (5 / 9) (459.67 * 5 / 9), false⟩,
   ⟨"bar", "bar", .convertible pascal 1e5 0, true⟩,
   ⟨"atm", "atmosphere", .convertible pascal 101325 0, true⟩,
   ⟨"cal", "calorie", .convertible joule 4.184 0, true⟩,
   ⟨"Wh", "watt hour", .convertible joule 3600 0, true⟩,
   ⟨"eV", "electronvolt", .convertible joule 1.602176634e-19 0, true⟩]

/-- The ratio of the circumference of a circle to its diameter. -/
def pi : Float := 3.141592653589793

/-- The multiples of coherent units without a name. -/
def scaledUnits : List UnitDefinition :=
  [⟨"L", "litre", .scaled { length := 3 } 1e-3, true⟩,
   ⟨"rad", "radian", .scaled .one 1, true⟩,
   ⟨"deg", "degree", .scaled .one (pi / 180), true⟩]

/-- The units of the international system. -/
def standardUnits : List UnitDefinition :=
  baseUnits ++ derivedUnits ++ convertibleUnits ++ scaledUnits

/-- No symbol is taken twice, so that all these units are registered. -/
theorem nodup_standardUnits : (standardUnits.map (·.symbol)).Nodup := by
  decide +kernel

/-- The international system. -/
def international : UnitSystem := ofDefinitions "SI" standardUnits

theorem toRegistry_international :
    international.toRegistry = Registry.registerAll {} standardUnits := by
  rw [international, ofDefinitions]

end QuantityCalc.UnitSystem
