import QuantityCalc.Quantity.Basic
import QuantityCalc.Session.Names
import QuantityCalc.Session.Scripts
import QuantityCalc.Unit.Resolution

/-!
# Calls

A call runs the body of a function in a frame: a new scope that binds the arguments. Its parent is
the scope that the function was declared in. When the body ends, in whatever way, the frame is
released with all scopes that were made in it. A call that returns nothing has the value of a
falsehood.
-/

namespace QuantityCalc

/-- What is restored when a call ends. -/
structure Frame where
  /-- The number of scopes. -/
  size : Nat
  /-- The current scope. -/
  current : Nat
  /-- The first scope of the innermost call. -/
  floor : Nat

namespace Session

/-- What the end of a call restores. -/
def frame (s : Session) : Frame := ⟨s.scopes.size, s.current, s.floor⟩

/-- The session inside of a new call. -/
def enter (s : Session) (name : String) (parent : Nat) (args : List (String × Quantity)) :
    Session :=
  { s with
    scopes := s.scopes.push {
      name := name
      parent? := some parent
      items := args.foldl (fun items (name, value) => items.insert name (.var value)) ∅ }
    current := s.scopes.size
    floor := s.scopes.size
    depth := s.depth + 1 }

/-- The session after the end of a call. -/
def leave (s : Session) (f : Frame) : Session :=
  { s with
    scopes := s.scopes.take f.size, current := f.current, floor := f.floor, depth := s.depth - 1 }

/-- Runs an action in the frame of a call, unless the depth of calls is reached. -/
def inFrame {α : Type} (name : String) (parent : Nat) (args : List (String × Quantity))
    (body : Action α) : Action α := do
  let s ← get
  let limit := s.options.maxCallDepth
  if limit ≤ s.depth then throw (.callDepth limit)
  let f := s.frame
  set (s.enter name parent args)
  let outcome ← ExceptT.lift body.run
  modify (·.leave f)
  liftExcept outcome

/-- Binds arguments to parameters. An argument is converted to the unit of its parameter. -/
def bindArguments (s : Session) (f : UserFunction) :
    List Parameter → List Quantity → Except Error (List (String × Quantity))
  | p :: ps, q :: qs => do
    let value ← match p.unit? with
      | none => Except.ok q
      | some unit => do
        let target ← (s.system.parse unit.toList).mapError .unit
        (q.convert target).mapError fun _ => .parameterUnit f.name p.name unit
    return (p.name, value) :: (← s.bindArguments f ps qs)
  | _, _ => .ok []

/-- Calls a function of command lines that was declared in a scope. -/
def callUser (run : Runner) (f : UserFunction) (scope : Nat) (args : List Quantity) :
    Action Quantity := do
  if args.length ≠ f.parameters.length then
    throw (.arity f.name (.exactly f.parameters.length) args.length)
  let bound ← (← get).bindArguments f f.parameters args
  return (← inFrame f.name scope bound (run f.body)).getD (.ofBool false)

/-- Calls the function that a name stands for. -/
def call (run : Runner) (home : Home) (name : String) (args : List Quantity) : Action Quantity := do
  match home with
  | .builtins =>
    match Builtin.ofName? name with
    | some f => f.call args
    | none => throw (.unknownName name)
  | _ =>
    match (← get).function? home name with
    | some (f, scope) => callUser run f scope args
    | none => throw (.unknownName name)

/-- Calls the script of a name as a function without parameters, in a scope below the global one.
There is no value if there is no such script. -/
def callFile (run : Runner) (name : String) : Action (Option Quantity) := do
  match ← findScript (name ++ "." ++ scriptExtension) with
  | none => return none
  | some path => do
    let lines ← readLines path
    return some ((← inFrame name global [] (run lines)).getD (.ofBool false))

end Session

end QuantityCalc
