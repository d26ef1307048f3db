import QuantityCalc.Session.Calls
import QuantityCalc.Text.Cursor

/-!
# Operands

An operand is evaluated as soon as it is read: a number with the unit behind it, a variable, a
unit, or a call. So what stands in a postfix stream is a value.
-/

namespace QuantityCalc

/-- Reads at a place in a text and moves it on. After an error the place is where reading
stopped. -/
abbrev Reading := ExceptT Error (StateT Cursor Run)

/-- What reading an expression needs besides the text. -/
structure ReadingContext where
  /-- Runs the bodies of functions and scripts. -/
  run : Runner
  /-- Reads the arguments of a call. -/
  arguments : Text → Run (Parsed (List Quantity))
  /-- Whether a closing parenthesis ends the text, as behind arguments. -/
  nested : Bool

namespace Reading

/-- An action of the session while a text is read. -/
def act {α : Type} (a : Action α) : Reading α := do
  liftExcept (← ExceptT.lift (StateT.lift a.run))

/-- The malformation of a text at a position. -/
def malformed {α : Type} (position : Nat) (what : Malformation) : Reading α :=
  throw (.malformed position what)

/-- The outcome of a check at a position. -/
def check {α : Type} (position : Nat) (r : Except Malformation α) : Reading α :=
  liftExcept (r.mapError (Error.malformed position))

/-- A number with the unit that follows it, if one does. -/
def number (value : Float) : Reading Quantity := do
  let c ← get
  match (← getThe Session).system.scan? (Text.trimStart c.rest) with
  | some (.ok (unit, rest)) =>
    set (c.moveTo rest)
    return ⟨value, unit⟩
  | some (.error e) =>
    set c.skipBlanks
    throw (.unit e)
  | none => return .plain value

/-- The arguments of a call, behind its opening parenthesis. -/
def arguments (context : ReadingContext) : Reading (List Quantity) := do
  modify Cursor.skipBlanks
  let c ← get
  match c.eat? [')'] with
  | some c =>
    set c
    return []
  | none =>
    let parsed ← context.arguments c.rest
    set (c.moveTo parsed.rest)
    let args ← liftExcept (parsed.value.mapError (·.shift c.position))
    modify Cursor.skipBlanks
    let c ← get
    match c.eat? [')'] with
    | some c =>
      set c
      return args
    | none =>
      if c.rest.isEmpty then throw (.unterminated c.position none)
      else malformed c.position .unclosedArguments

/-- The call of a script as a function: a name that nothing else is known of, with an empty list of
arguments right behind it. -/
def scriptCall (context : ReadingContext) (path : String) : Reading Quantity := do
  match (← get).eat? ['(', ')'] with
  | none => throw (.unknownName path)
  | some c =>
    if path.toList.contains '.' then throw (.unknownName path)
    match ← act (Session.callFile context.run path) with
    | some value =>
      set c
      return value
    | none => throw (.unknownName path)

/-- A name at a position, behind which the text goes on: a variable, a unit or a call. -/
def named (context : ReadingContext) (name : String) (position : Nat) : Reading Quantity := do
  let c ← get
  let r := (← getThe Session).resolve name c.rest
  set (c.moveTo r.rest)
  match r.meaning? with
  | none => scriptCall context r.path
  | some m =>
    match m.kind with
    | .var =>
      match (← getThe Session).valueAt? m.home r.last with
      | some value => return value
      | none => throw (.unknownName r.path)
    | .unit =>
      match (← getThe Session).unit? m.home r.last with
      | some unit => return ⟨1, unit⟩
      | none => throw (.unknownName r.path)
    | .function =>
      match (← get).skipBlanks.eat? ['('] with
      | some c =>
        set c
        let args ← arguments context
        act (Session.call context.run m.home r.last args)
      | none => malformed position (.noArguments r.path)
    | .unitSystem | .space => throw (.evaluation (.notAValue r.path))

end Reading

end QuantityCalc
