import QuantityCalc.Session.Names
import QuantityCalc.Unit.Registration

/-!
# Binding names

Names are bound in the current scope, and dotted names in the namespace that their first segments
lead to. A variable may be bound again, other items may not.

The changes are made step by step, and an error leaves the session as it is at that moment: a unit
is registered before its symbol is bound, and the item of a namespace is bound before its scope is
made.
-/

namespace QuantityCalc.Session

/-- The segments of a dotted name. -/
def segments (path : String) : List String := (path.toList.splitOn '.').map String.ofList

/-- Whether a name has more than one segment. -/
def isDotted (path : String) : Bool := path.toList.contains '.'

/-- The last segment of a name. -/
def lastSegment (path : String) : String := (segments path).getLastD path

/-- The scope of a namespace. -/
def scopeOf (name : String) : Option Item → Except Error Nat
  | some (.space scope) => .ok scope
  | _ => .error (.unknownName name)

/-- The scope that a dotted name is bound in, and the name there. The first segment is looked up
from the current scope, each further one in the namespace before it. -/
def target (s : Session) (path : String) : Except Error (Nat × String) :=
  match (segments path).dropLast with
  | [] => .ok (s.current, path)
  | first :: inner => do
    let scope ← scopeOf first ((s.find? first).map (·.2))
    let scope ← inner.foldlM (fun scope name => scopeOf name (s.item? scope name)) scope
    return (scope, lastSegment path)

/-- Binds a name in a scope. Only a variable may take the place of another, and only of a
variable. -/
def bind (scope : Nat) (name : String) (item : Item) : Action Unit := do
  if let some existing := (← get).item? scope name then
    unless existing.isVar && item.isVar do throw (.declaration (.alreadyDeclared name))
  modify (·.insert scope name item)

/-- Declares a variable. -/
def define (path : String) (value : Quantity) : Action Unit := do
  let (scope, name) ← liftExcept ((← get).target path)
  bind scope name (.var value)

/-- Assigns to the innermost variable of a name, or declares one. -/
def assign (path : String) (value : Quantity) : Action Unit := do
  if isDotted path then define path value
  else
    let scope ← match (← get).find? path with
      | some (scope, .var _) => pure scope
      | some (_, item) => throw (.evaluation (.notAssignable item.kind path))
      | none => pure (← get).current
    modify (·.insert scope path (.var value))

/-- Registers a unit in the system of units, and tells its index. -/
def registerUnit (symbol : String) (value : Quantity) : Action Nat := do
  let (result, system) := (← get).system.declare symbol value
  modify fun s => { s with system := system }
  liftExcept (result.mapError Error.unit)

/-- Declares a unit and binds its symbol in the current scope. -/
def declareUnit (symbol : String) (value : Quantity) : Action Unit := do
  let id ← registerUnit symbol value
  bind (← get).current symbol (.unit id)

/-- Declares a namespace, and tells its scope. While a call runs, a namespace can only be declared
in the scopes of the call, since those are released with it. -/
def declareNamespace (path : String) : Action Nat := do
  let (parent, name) ← liftExcept ((← get).target path)
  if parent < (← get).floor then throw (.declaration (.outlivesCall path))
  let scope := (← get).scopes.size
  bind parent name (.space scope)
  modify fun s => { s with scopes := s.scopes.push { name := name, parent? := some parent } }
  return scope

/-- Binds a function in the current scope. It may take the place of a function. -/
def registerFunction (f : UserFunction) : Action Unit := do
  let scope := (← get).current
  if let some existing := (← get).item? scope f.name then
    unless existing.isFunction do throw (.declaration (.alreadyDeclared f.name))
  modify (·.insert scope f.name (.function f scope))

/-- The scope in which a name to be removed is bound. -/
def scopeToClear (s : Session) (path : String) : Except Error Nat :=
  if isDotted path then (s.target path).map (·.1)
  else
    match s.find? path with
    | some (scope, _) => .ok scope
    | none => .error (.unknownName path)

/-- Removes a name, and tells what it was bound to. The system of units stays. -/
def remove (path : String) : Action Item := do
  let scope ← liftExcept ((← get).scopeToClear path)
  let name := lastSegment path
  match (← get).item? scope name with
  | some .unitSystem => throw (.evaluation (.activeSystem name))
  | none => throw (.unknownName path)
  | some item =>
    modify (·.erase scope name)
    return item

/-- The items of a scope, in the order of their names. -/
def itemsOf (s : Session) (scope : Nat) : List (String × Item) :=
  match s.scopes[scope]? with
  | some found => found.items.toList
  | none => []

/-- The items that are visible from the current scope, innermost first. A name that an inner scope
binds hides those of the outer ones. -/
def visibleItems (s : Session) : List (String × Item) :=
  (s.chain s.current).foldl
    (fun shown scope =>
      shown ++ (s.itemsOf scope).filter fun (name, _) => !shown.any (·.1 = name))
    []

end QuantityCalc.Session
