import QuantityCalc.Builtin
import QuantityCalc.Session.Basic

/-!
# The meaning of names

A name is classified as seen from the current scope: by the innermost scope that binds it, as a
built-in function, or as a symbol of the system of units. The classification tells where the item is
kept. It is fetched from there, and the next segment of a dotted name is classified there.
-/

namespace QuantityCalc

/-- Where an item is kept. -/
inductive Home where
  /-- In a scope. -/
  | scope (scope : Nat)
  /-- In the system of units. -/
  | system
  /-- Among the built-in functions. -/
  | builtins
deriving DecidableEq

/-- What a name stands for. -/
structure Meaning where
  /-- The kind of the item. -/
  kind : ItemKind
  /-- Where the item is kept; for a namespace its own scope. -/
  home : Home
deriving DecidableEq

namespace Meaning

/-- Whether further segments of a dotted name are looked up in the item. -/
def isContainer (m : Meaning) : Bool := m.kind = .space || m.kind = .unitSystem

/-- The meaning of an item that a scope binds. -/
def ofItem (scope : Nat) (item : Item) : Meaning :=
  match item with
  | .unitSystem => ⟨.unitSystem, .system⟩
  | .space inner => ⟨.space, .scope inner⟩
  | item => ⟨item.kind, .scope scope⟩

end Meaning

namespace Session

/-- The meaning of a name in the current scope. -/
def meaning? (s : Session) (name : String) : Option Meaning :=
  match s.find? name with
  | some (scope, item) => some (.ofItem scope item)
  | none =>
    if (Builtin.ofName? name).isSome then some ⟨.function, .builtins⟩
    else if s.system.contains name then some ⟨.unit, .system⟩
    else none

/-- The meaning of a segment of a dotted name. -/
def meaningIn? (s : Session) (home : Home) (name : String) : Option Meaning :=
  match home with
  | .scope scope => (s.item? scope name).map (.ofItem scope)
  | .system => if s.system.contains name then some ⟨.unit, .system⟩ else none
  | .builtins => if (Builtin.ofName? name).isSome then some ⟨.function, .builtins⟩ else none

/-- The meanings of the segments of a dotted name, as far as they have one. -/
def meanings (s : Session) : List String → List (Option Meaning)
  | [] => []
  | first :: rest =>
    let m? := s.meaning? first
    m? :: inner m? rest
where
  /-- The meanings of further segments behind one. -/
  inner (m? : Option Meaning) : List String → List (Option Meaning)
    | [] => []
    | segment :: rest =>
      let next? := m?.bind fun m => s.meaningIn? m.home segment
      next? :: inner next? rest

/-- The item that a name is bound to at its home. -/
def itemAt? (s : Session) (home : Home) (name : String) : Option Item :=
  match home with
  | .scope scope => s.item? scope name
  | .system | .builtins => none

/-- The value of a variable. -/
def valueAt? (s : Session) (home : Home) (name : String) : Option Quantity :=
  match s.itemAt? home name with
  | some (.var value) => some value
  | _ => none

/-- The unit that a name denotes. -/
def unit? (s : Session) (home : Home) (name : String) : Option MeasureUnit :=
  match home with
  | .system => s.system.lookup? name
  | _ =>
    match s.itemAt? home name with
    | some (.unit id) => s.system.unit? id
    | _ => none

/-- A function of command lines, with the scope that it was declared in. -/
def function? (s : Session) (home : Home) (name : String) : Option (UserFunction × Nat) :=
  match s.itemAt? home name with
  | some (.function f scope) => some (f, scope)
  | _ => none

/-- What a dotted name stands for, and the text behind it. -/
structure Resolution where
  /-- The name as it was read. -/
  path : String
  /-- The last segment. -/
  last : String
  /-- The meaning of the last segment. -/
  meaning? : Option Meaning
  /-- The text behind the name. -/
  rest : Text

/-- Reads on behind a name as long as it stands for something with segments in it and one
follows. -/
def follow (s : Session) (path last : String) (m? : Option Meaning) (t : Text) : Resolution :=
  match t, m? with
  | '.' :: t', some m =>
    if m.isContainer then
      match h : Name.scan? t' with
      | some (word, rest) =>
        have := Name.length_lt_of_scan? h
        let segment := String.ofList word
        s.follow (path ++ "." ++ segment) segment (s.meaningIn? m.home segment) rest
      | none => ⟨path, last, m?, t⟩
    else ⟨path, last, m?, t⟩
  | _, _ => ⟨path, last, m?, t⟩
termination_by t.length
decreasing_by
  simp only [List.length_cons]
  omega

/-- Reads the segments of a dotted name behind its first one. -/
def resolve (s : Session) (name : String) (t : Text) : Resolution :=
  s.follow name name (s.meaning? name) t

end Session

end QuantityCalc
