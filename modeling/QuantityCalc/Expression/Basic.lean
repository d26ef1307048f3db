import QuantityCalc.Expression.Operand
import QuantityCalc.Expression.Yard

/-!
# Expressions

An expression is read word by word. Each round gives the items of the postfix stream that are
complete, and they are evaluated before the next round, so that an error of the evaluation ends the
reading.

An expression ends at the end of the text, at a comment, at a punctuation mark other than the
point, and, among the arguments of a call, at a closing parenthesis. A target unit in brackets may
follow, and several expressions may stand in a list.

The argument lists of calls are read by `Expression.arguments` with room for a number of further
levels; its recursion is on that number.
-/

namespace QuantityCalc

/-- What a round of reading gives. -/
inductive Round where
  /-- The expression goes on. -/
  | more (items : List Postfix.Item) (y : Yard)
  /-- The expression is over. -/
  | last (items : List Postfix.Item)

namespace Expression

/-- The items of the stream that operators make. -/
def itemsOf (ops : List Operator) : List Postfix.Item := ops.map fun op => .ok (.operator op)

/-- Whether an expression ends before a text, apart from closing parentheses. -/
def endsAt (t : Text) : Bool := isOver t || t.head?.any (· ∈ [',', '[', ']', ';', '{', '}'])

/-- Ends an expression. If something is missing, the text has to be over. -/
def finish (y : Yard) (c : Cursor) : Reading Round := do
  if y.isIncomplete then
    if isOver c.rest then
      return .last (itemsOf y.drain ++ [.error (.unterminated c.position none)])
    else Reading.malformed c.position .incomplete
  else return .last (itemsOf y.drain)

/-- Reads an operand at a position. -/
def operand (y : Yard) (position : Nat) (read : Reading Quantity) : Reading Round := do
  Reading.check position y.checkOperand
  let q ← read
  return .more [.ok (.operand q)] y.operand

/-- Takes a word at a position. -/
def word (context : ReadingContext) (y : Yard) (position : Nat) : Lexeme → Reading Round
  | .parenOpen => do
    Reading.check position y.checkOperand
    let limit := (← getThe Session).options.maxNesting
    if limit ≤ y.depth then throw (.nesting limit)
    return .more [] y.openGroup
  | .parenClose => do
    let (ops, y) ← Reading.check position y.closeGroup
    return .more (itemsOf ops) y
  | .operator op => do
    let (ops, y) ← Reading.check position (y.operator op)
    return .more (itemsOf ops) y
  | .number l =>
    match l.value? with
    | some value => operand y position (Reading.number value)
    | none => throw (.invalidNumber position (String.ofList l.spelling))
  | .name name => operand y position (Reading.named context (String.ofList name) position)
  | .mark c => throw (.unexpectedChar position c)

/-- Reads the next word. -/
def step (context : ReadingContext) (y : Yard) : Reading Round := do
  modify Cursor.skipBlanks
  let c ← get
  if endsAt c.rest then finish y c
  else if c.rest.head? = some ')' && y.depth = 0 then
    if context.nested then finish y c else Reading.malformed c.position .unbalancedClose
  else
    let lexeme? := Lexeme.scan (← getThe Session).options.decimalComma c.rest
    match ← liftExcept (lexeme?.mapError Error.internal) with
    | some (l, rest) =>
      set (c.moveTo rest)
      word context y c.position l
    | none => throw (.unexpectedChar c.position (c.rest.headD ' '))

theorem step_eq (context : ReadingContext) (y : Yard) : step context y = (do
    modify Cursor.skipBlanks
    let c ← get
    if endsAt c.rest then finish y c
    else if c.rest.head? = some ')' && y.depth = 0 then
      if context.nested then finish y c else Reading.malformed c.position .unbalancedClose
    else
      match Lexeme.scan? (← getThe Session).options.decimalComma c.rest with
      | some (l, rest) =>
        set (c.moveTo rest)
        word context y c.position l
      | none => throw (.unexpectedChar c.position (c.rest.headD ' '))) := by
  simp only [step, Lexeme.scan_eq_ok]
  rfl

/-- What feeding a stream to a consumer led to, and the place behind what was read. -/
structure Fed (σ : Type) where
  /-- The state of the consumer, or the error that ended the reading. -/
  state : Except Error σ
  /-- The place behind what was read. -/
  place : Cursor

/-- Reads an expression and feeds the items of its stream to a consumer. An error of the reading is
the last item. -/
def feed {σ : Type} (context : ReadingContext) (consume : List Postfix.Item → σ → Except Error σ)
    (state : σ) (y : Yard) (c : Cursor) : Run (Fed σ) := do
  match ← (step context y).run c with
  | (.error e, c) => return ⟨consume [.error e] state, c⟩
  | (.ok (.last items), c) => return ⟨consume items state, c⟩
  | (.ok (.more items y), c') =>
    match consume items state with
    | .error e => return ⟨.error e, c'⟩
    | .ok state =>
      if c'.rest.length < c.rest.length then feed context consume state y c'
      else return ⟨.error (.internal .noProgress), c'⟩
termination_by c.rest.length

/-- The value of an expression at the front of a text. -/
def value (context : ReadingContext) (t : Text) : Run (Parsed Quantity) := do
  let fed ← feed context Postfix.run [] {} (.start t)
  let q? := fed.state.bind Postfix.value?
  return ⟨q?.bind fun q? => (q?.map Except.ok).getD (.error .emptyExpression), fed.place.rest⟩

/-- The quantity in a target unit. -/
def inTarget (s : Session) (q : Quantity) (target : Text) : Except Error Quantity := do
  let unit ← (s.system.parse target).mapError .unit
  match q.convert unit with
  | .ok q => return q
  | .error e =>
    if s.options.lenientConversion then return q.convertOrCombine unit else throw (.unit e)

/-- The value of an expression with a target unit in brackets, if one follows. Without one, a
computed unit is exchanged for a named one. -/
def converted (context : ReadingContext) (t : Text) : Run (Parsed Quantity) := do
  let ⟨value, rest⟩ ← Expression.value context t
  match value with
  | .error e => return ⟨.error e, rest⟩
  | .ok q =>
    let s ← get
    match Text.trimStart rest with
    | '[' :: inside =>
      match Text.cut? ']' inside with
      | some (target, rest) => return ⟨inTarget s q target, rest⟩
      | none =>
        let position := Text.bytes t - Text.bytes ('[' :: inside)
        return ⟨.error (.malformed position .unclosedTarget), '[' :: inside⟩
    | _ => return ⟨.ok (q.relabel s.system), rest⟩

/-- The values of expressions that are separated by commas, behind those of `values`. Positions are
those in a text that has `offset` bytes before `t`. -/
def listFrom (context : ReadingContext) (values : List Quantity) (offset : Nat) (t : Text) :
    Run (Parsed (List Quantity)) := do
  let ⟨value, rest⟩ ← converted context t
  match value with
  | .error e => return ⟨.error (e.shift offset), rest⟩
  | .ok q =>
    match Text.trimStart rest with
    | ',' :: next =>
      if next.length < t.length then
        listFrom context (values ++ [q]) (offset + (Text.bytes t - Text.bytes next)) next
      else return ⟨.error (.internal .noProgress), rest⟩
    | _ => return ⟨.ok (values ++ [q]), rest⟩
termination_by t.length

/-- The values of expressions that are separated by commas. -/
def list (context : ReadingContext) (t : Text) : Run (Parsed (List Quantity)) :=
  listFrom context [] 0 t

/-- The arguments of a call, with room for so many levels of argument lists. -/
def arguments (run : Runner) : (room : Nat) → Text → Run (Parsed (List Quantity))
  | 0, t => do return ⟨.error (.nesting (← get).options.maxNesting), t⟩
  | room + 1, t => list ⟨run, arguments run room, true⟩ t

/-- How the expressions of a command are read. -/
def topLevel (run : Runner) : Run ReadingContext := do
  return ⟨run, arguments run (← get).options.maxNesting, false⟩

end Expression

end QuantityCalc
