import QuantityCalc.Error
import QuantityCalc.Lexeme.Sequence
import QuantityCalc.Unit.Reading

/-!
# Functions and their declarations

A function is declared by `Func name(parameters)` and a body in braces, over any number of lines:

    Func name(a [unit], b) {
      command lines
    }

A `Draft` is what was read of a declaration so far. `Draft.feed` reads one more line. The body ends
at the first closing brace that outnumbers the opening ones of the body, where a comment hides the
braces behind it.
-/

namespace QuantityCalc

/-- A parameter of a function. Its argument is converted to the unit, if there is one. -/
structure Parameter where
  /-- The name that the argument is bound to. -/
  name : String
  /-- The text of the unit. -/
  unit? : Option String
deriving DecidableEq

/-- A function that command lines define. -/
structure UserFunction where
  /-- The name. -/
  name : String
  /-- The parameters. -/
  parameters : List Parameter
  /-- The command lines that a call runs. -/
  body : List String
deriving DecidableEq

namespace Parameter

/-- The parameter as it is written. -/
def text (p : Parameter) : String :=
  match p.unit? with
  | some unit => s!"{p.name} [{unit}]"
  | none => p.name

end Parameter

namespace UserFunction

/-- The name and the parameters as they are written. -/
def heading (f : UserFunction) : String :=
  f.name ++ "(" ++ ", ".intercalate (f.parameters.map Parameter.text) ++ ")"

end UserFunction

/-! ## Declarations in progress -/

/-- The outcome of reading a text, with the text that is left. -/
structure Parsed (α : Type) where
  /-- The value, or what is wrong. -/
  value : Except Error α
  /-- The text behind what was read. -/
  rest : Text

/-- The mark that starts a comment. -/
def commentMark : Text := ['/', '/']

/-- Whether a text is over: it is empty, or a comment starts. -/
def isOver (t : Text) : Bool := t.isEmpty || commentMark.isPrefixOf t

/-- A declaration of a function in progress, by what comes next. -/
inductive Draft where
  /-- Nothing was read. -/
  | idle
  /-- The parameter list is to start. -/
  | named (name : String)
  /-- The first parameter or the end of the list follows. -/
  | listed (name : String)
  /-- A parameter has to follow. -/
  | awaiting (name : String) (parameters : List Parameter)
  /-- A comma or the end of the list follows. -/
  | separated (name : String) (parameters : List Parameter)
  /-- The body is to start. -/
  | headed (name : String) (parameters : List Parameter)
  /-- The body goes on, with so many braces open in it. -/
  | inBody (name : String) (parameters : List Parameter) (body : List String) (depth : Nat)
deriving DecidableEq

namespace Draft

/-- Whether a declaration has begun. -/
def isOpen : Draft → Bool
  | idle => false
  | _ => true

/-- The name of the function, empty if none was read. -/
def name : Draft → String
  | idle => ""
  | named name | listed name => name
  | awaiting name _ | separated name _ | headed name _ => name
  | inBody name .. => name

/-- The error of a malformation at a place. -/
def faultAt (c : Cursor) (what : Malformation) : Error := .malformed c.position what

/-- How the words of a heading are read: no other characters are admitted. -/
def manner : Lexeme.Manner := ⟨true, false⟩

/-- Reads the name of a parameter and its unit. -/
def parameter (c : Cursor) : Except Error Parameter × Cursor :=
  match Lexeme.next manner c with
  | (.error e, c) => (.error e, c)
  | (.ok (some (.name word)), c) =>
    let name := String.ofList word
    let c := c.skipBlanks
    match c.eat? ['['] with
    | none => (.ok ⟨name, none⟩, c)
    | some c =>
      match Text.cut? ']' c.rest with
      | none => (.error (faultAt c .unclosedParameterUnit), c)
      | some (inside, rest) =>
        let unit := Text.trim inside
        match UnitExpr.validate unit with
        | .ok _ => (.ok ⟨name, some (String.ofList unit)⟩, c.moveTo rest)
        | .error e => (.error (.unit e), c)
  | (.ok _, c') => (.error (faultAt c .parameterName), c')

/-- Reads a parameter and puts it behind those before it. -/
def addParameter (name : String) (parameters : List Parameter) (c : Cursor) :
    Except Error Draft × Cursor :=
  match parameter c with
  | (.error e, c) => (.error e, c)
  | (.ok p, c) =>
    if parameters.any (·.name = p.name) then
      (.error (.declaration (.duplicateParameter p.name name)), c)
    else (.ok (.separated name (parameters ++ [p])), c)

/-- Reads the keyword and the name of the function. -/
def keyword (c : Cursor) : Except Error Draft × Cursor :=
  match Lexeme.next manner c with
  | (.error e, c) => (.error e, c)
  | (.ok (some (.name word)), c') =>
    if String.ofList (word.map Char.toLower) = "func" then
      let c := c'.skipBlanks
      match Name.scan? c.rest with
      | some (name, rest) => (.ok (.named (String.ofList name)), c.moveTo rest)
      | none => (.error (faultAt c .functionName), c)
    else (.error (faultAt c .funcKeyword), c')
  | (.ok _, c') => (.error (faultAt c .funcKeyword), c')

/-- Reads the next part of a heading at a place without white space. -/
def step (d : Draft) (c : Cursor) : Except Error Draft × Cursor :=
  match d with
  | idle => keyword c
  | named name =>
    match c.eat? ['('] with
    | some c => (.ok (listed name), c)
    | none => (.error (faultAt c .parameterList), c)
  | listed name =>
    match c.eat? [')'] with
    | some c => (.ok (headed name []), c)
    | none => addParameter name [] c
  | awaiting name parameters => addParameter name parameters c
  | separated name parameters =>
    match c.eat? [','], c.eat? [')'] with
    | some c, _ => (.ok (awaiting name parameters), c)
    | none, some c => (.ok (headed name parameters), c)
    | none, none => (.error (faultAt c .parameterEnd), c)
  | headed name parameters =>
    match c.eat? ['{'] with
    | some c => (.ok (inBody name parameters [] 0), c)
    | none => (.error (faultAt c .bodyStart), c)
  | inBody .. => (.ok d, c)

/-- The parts of a text before and behind the closing brace that ends a body, with so many braces
open at its start; or the number of braces open at its end. -/
def splitBody (depth : Nat) : Text → Nat ⊕ Text × Text
  | [] => .inl depth
  | c :: t =>
    if commentMark.isPrefixOf (c :: t) then .inl depth
    else if c = '}' && depth = 0 then .inr ([], t)
    else
      let depth := if c = '{' then depth + 1 else if c = '}' then depth - 1 else depth
      match splitBody depth t with
      | .inl depth => .inl depth
      | .inr (before, after) => .inr (c :: before, after)

/-- A body with one more line, trimmed. Blank lines are dropped. -/
def addLine (body : List String) (line : Text) : List String :=
  let line := Text.trim line
  if line.isEmpty then body else body ++ [String.ofList line]

/-- Reads the body up to its end, if that is in the text. -/
def readBody (name : String) (parameters : List Parameter) (body : List String) (depth : Nat)
    (t : Text) : Option UserFunction × Draft × Text :=
  match splitBody depth t with
  | .inl depth => (none, inBody name parameters (addLine body t) depth, [])
  | .inr (before, after) => (some ⟨name, parameters, addLine body before⟩, idle, after)

/-- Reads on from a place until the text or the declaration is over. -/
def readOn (d : Draft) (c : Cursor) : Parsed (Option UserFunction) × Draft :=
  let c := c.skipBlanks
  if isOver c.rest then (⟨.ok none, []⟩, d)
  else
    match d with
    | inBody name parameters body depth =>
      let (f?, d, rest) := readBody name parameters body depth c.rest
      (⟨.ok f?, rest⟩, d)
    | _ =>
      match step d c with
      | (.error e, c) => (⟨.error e, c.rest⟩, idle)
      | (.ok d, c') =>
        if c'.rest.length < c.rest.length then readOn d c'
        else (⟨.error (.internal .noProgress), c'.rest⟩, idle)
termination_by c.rest.length
decreasing_by exact Nat.lt_of_lt_of_le ‹_› (Text.trimStart_suffix _).length_le

/-- Reads one more line of a declaration. When the declaration is complete, its function and the
text behind its closing brace are given. After an error the declaration is given up. -/
def feed (d : Draft) (t : Text) : Parsed (Option UserFunction) × Draft := d.readOn (.start t)

end Draft

end QuantityCalc
