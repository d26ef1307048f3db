import QuantityCalc.Function.Draft
import Std.Data.TreeMap

/-!
# Scopes

A scope binds names to items. Scopes are addressed by numbers, and every scope but the global one
has a parent, where names are looked up that it does not bind.
-/

namespace QuantityCalc

/-- What a name is bound to. -/
inductive Item where
  /-- A variable with its value. -/
  | var (value : Quantity)
  /-- A function with the scope that it was declared in. Its calls see that scope. -/
  | function (f : UserFunction) (scope : Nat)
  /-- A unit, by its index in the system of units. -/
  | unit (id : Nat)
  /-- The system of units. -/
  | unitSystem
  /-- A namespace, by its scope. -/
  | space (scope : Nat)

namespace Item

/-- The kind of an item. -/
def kind : Item → ItemKind
  | .var _ => .var
  | .function .. => .function
  | .unit _ => .unit
  | .unitSystem => .unitSystem
  | .space _ => .space

/-- Whether an item is a variable. -/
def isVar : Item → Bool
  | .var _ => true
  | _ => false

/-- Whether an item is a function. -/
def isFunction : Item → Bool
  | .function .. => true
  | _ => false

end Item

/-- A scope. -/
structure Scope where
  /-- The name of the namespace or of the called function. -/
  name : String
  /-- The scope around it. -/
  parent? : Option Nat
  /-- The items that names are bound to. -/
  items : Std.TreeMap String Item := ∅
  /-- The declaration in progress, if there is one. -/
  draft? : Option Draft := none

end QuantityCalc
