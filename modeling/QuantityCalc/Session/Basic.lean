import QuantityCalc.Script.Files
import QuantityCalc.Session.Scope
import QuantityCalc.Unit.International

/-!
# Sessions

A session is all that command lines read and change: scopes, the system of units, options and the
lines written so far.

An `Action` is a step of a session that may fail: an error leaves the session as it is at that
moment. A `Run` may also halt without an outcome: when the budget for nested activations is spent,
or when it asks about a path at which nobody has looked.
-/

namespace QuantityCalc

/-- How command lines are read and run. -/
structure Options where
  /-- Whether a comma before a digit is a decimal sign. -/
  decimalComma : Bool := true
  /-- Whether an impossible conversion gives the quantity a label in place of an error. -/
  lenientConversion : Bool := false
  /-- The greatest depth of calls. -/
  maxCallDepth : Nat := 32
  /-- The greatest depth of nested argument lists, and of parentheses in one expression. -/
  maxNesting : Nat := 32
  /-- How many significant digits are shown; all that are needed, if it is not set. -/
  precision? : Option Nat := none
  /-- The directories where scripts are looked for after the working directory. -/
  scriptDirs : List String := []
deriving DecidableEq

/-- The state of a session. -/
structure Session where
  /-- The scopes. The first one is the global scope. -/
  scopes : Array Scope
  /-- The system of units. -/
  system : UnitSystem
  /-- The scope in which commands run. -/
  current : Nat
  /-- The number of calls that are running. -/
  depth : Nat
  /-- The first scope of the innermost call. The scopes from here on are released when it ends. -/
  floor : Nat
  /-- The options. -/
  options : Options
  /-- The lines written so far. -/
  output : Array String
  /-- What is known of the file system. -/
  files : Files

namespace Session

/-- The number of the global scope. -/
def global : Nat := 0

/-- A new session. The global scope binds the system of units. -/
def start (options : Options) (files : Files) : Session where
  scopes := #[{ name := "global", parent? := none, items := .ofList [("SI", Item.unitSystem)] }]
  system := .international
  current := global
  depth := 0
  floor := 0
  options := options
  output := #[]
  files := files

/-- The item that a name is bound to in a scope. -/
def item? (s : Session) (scope : Nat) (name : String) : Option Item := do
  (← s.scopes[scope]?).items[name]?

/-- A scope and all the scopes around it, from the inside out. -/
def chain (s : Session) (scope : Nat) : List Nat :=
  match s.scopes[scope]? with
  | none => []
  | some found =>
    match found.parent? with
    | some parent => scope :: if parent < scope then s.chain parent else []
    | none => [scope]
termination_by scope

/-- The innermost item that a name is bound to, with the scope that binds it. -/
def find? (s : Session) (name : String) : Option (Nat × Item) :=
  (s.chain s.current).findSome? fun scope => (s.item? scope name).map (scope, ·)

/-- The name of a scope. -/
def scopeName (s : Session) (scope : Nat) : String := ((s.scopes[scope]?).map (·.name)).getD ""

/-- The session with a change of one scope. -/
def modifyScope (s : Session) (scope : Nat) (f : Scope → Scope) : Session :=
  { s with scopes := s.scopes.modify scope f }

/-- The session with an item bound to a name. -/
def insert (s : Session) (scope : Nat) (name : String) (item : Item) : Session :=
  s.modifyScope scope fun found => { found with items := found.items.insert name item }

/-- The session without a name in a scope. -/
def erase (s : Session) (scope : Nat) (name : String) : Session :=
  s.modifyScope scope fun found => { found with items := found.items.erase name }

/-- The declaration in progress in the current scope. -/
def draft? (s : Session) : Option Draft := do (← s.scopes[s.current]?).draft?

/-- The session with a declaration in progress in the current scope, or with none. -/
def setDraft (s : Session) (d? : Option Draft) : Session :=
  s.modifyScope s.current fun scope => { scope with draft? := d? }

/-- Whether a declaration in the current scope waits for more lines. -/
def isDeclaring (s : Session) : Bool := s.draft?.any (·.isOpen)

/-- Gives up the declaration in progress, and tells the name of its function. -/
def cancelDraft (s : Session) : Option String × Session :=
  (s.draft?.map (·.name), s.setDraft none)

/-- Reads one more line of the declaration in the current scope, or the first line of a new one. The
function that it completes is not bound. -/
def continueDeclaration (s : Session) (t : Text) : Parsed (Option UserFunction) × Session :=
  let (parsed, d) := (s.draft?.getD .idle).feed t
  (parsed, s.setDraft (if d.isOpen then some d else none))

/-- The text of a quantity with the digits that the options ask for. -/
def format (s : Session) (q : Quantity) : String := q.format s.options.precision?

/-- The session after writing a line. The output accepts every line. -/
def write (s : Session) (line : String) : Session := { s with output := s.output.push line }

end Session

/-- Why a run has no outcome. -/
inductive Halt where
  /-- The budget for nested activations is spent. -/
  | exhausted
  /-- Nobody has looked at a path. -/
  | unseen (path : String)
deriving DecidableEq

/-- A step of a session. -/
abbrev Run := StateT Session (Except Halt)

/-- A step of a session that may fail. -/
abbrev Action := ExceptT Error Run

/-- What stands at a path, if somebody has looked there. -/
def Files.look (f : Files) (path : String) : Except Halt Sighting :=
  match f.at? path with
  | some s => .ok s
  | none => .error (.unseen path)

/-- What stands at a path. -/
def Run.look (path : String) : Run Sighting := do (← get).files.look path

end QuantityCalc
