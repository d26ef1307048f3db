import QuantityCalc.Error
import QuantityCalc.Lexeme.Number
import QuantityCalc.Text.Basic
import QuantityCalc.Text.Letter

/-!
# Lexemes

The words of a command line: parentheses, operators, number literals, names and punctuation. White
space may stand between them. Of two operators the longer one is taken.
-/

namespace QuantityCalc

namespace Name

/-- Whether a name may start with a character. -/
def isStart (c : Char) : Bool := Text.isLetter c || c = '_' || c = '°'

/-- Whether a character may stand in a name. -/
def isChar (c : Char) : Bool := Text.isLetter c || Text.isNumeral c || c = '_' || c = '°'

/-- The name at the front of a text, with the text behind it. -/
def scan? : Text → Option (Text × Text)
  | c :: t => if isStart c then some (c :: t.takeWhile isChar, t.dropWhile isChar) else none
  | [] => none

theorem eq_append_of_scan? {t word rest : Text} (h : scan? t = some (word, rest)) :
    t = word ++ rest ∧ word ≠ [] := by
  match t with
  | [] => simp [scan?] at h
  | c :: t =>
    simp only [scan?, Option.ite_none_right_eq_some, Option.some.injEq, Prod.mk.injEq] at h
    obtain ⟨_, rfl, rfl⟩ := h
    simp

theorem length_lt_of_scan? {t word rest : Text} (h : scan? t = some (word, rest)) :
    rest.length < t.length := by
  obtain ⟨rfl, hw⟩ := eq_append_of_scan? h
  have := List.length_pos_iff.2 hw
  simp only [List.length_append]
  omega

end Name

/-- A word of a command line. -/
inductive Lexeme where
  /-- An opening parenthesis. -/
  | parenOpen
  /-- A closing parenthesis. -/
  | parenClose
  /-- An operator, in its binary reading. -/
  | operator (op : Operator)
  /-- A number literal. -/
  | number (l : Literal)
  /-- A name. -/
  | name (name : Text)
  /-- One of the characters `, [ ] ; { } .` -/
  | mark (c : Char)

namespace Lexeme

/-- Whether a character is a punctuation mark. -/
def isMark (c : Char) : Bool := [',', '[', ']', ';', '{', '}', '.'].contains c

/-- The operator at the front of a text, with the text behind it. -/
def operator? (t : Text) : Option (Operator × Text) :=
  match Operator.ofSymbol? (String.ofList (t.take 2)), t with
  | some op, _ :: _ :: rest => some (op, rest)
  | _, _ => (Operator.ofSymbol? (String.ofList (t.take 1))).map fun op => (op, t.drop 1)

/-- Reads the lexeme at the front of a text, and gives the text behind it. A digit begins a number,
and the first character of a name begins a name; anything else there is a breach. -/
def scan (decimalComma : Bool) (t : Text) : Except Breach (Option (Lexeme × Text)) :=
  match t with
  | [] => .ok none
  | '(' :: rest => .ok (some (.parenOpen, rest))
  | ')' :: rest => .ok (some (.parenClose, rest))
  | c :: rest =>
    if isMark c then .ok (some (.mark c, rest))
    else if c.isDigit then
      match Literal.scan? decimalComma t with
      | some (l, rest) => .ok (some (.number l, rest))
      | none => .error .noNumber
    else if Name.isStart c then
      match Name.scan? t with
      | some (word, rest) => .ok (some (.name word, rest))
      | none => .error .noName
    else .ok ((operator? t).map fun (op, rest) => (.operator op, rest))

/-- The lexeme at the front of a text, with the text behind it. -/
def scan? (decimalComma : Bool) (t : Text) : Option (Lexeme × Text) :=
  match t with
  | [] => none
  | '(' :: rest => some (.parenOpen, rest)
  | ')' :: rest => some (.parenClose, rest)
  | c :: rest =>
    if isMark c then some (.mark c, rest)
    else if c.isDigit then (Literal.scan? decimalComma t).map fun (l, rest) => (.number l, rest)
    else if Name.isStart c then (Name.scan? t).map fun (word, rest) => (.name word, rest)
    else (operator? t).map fun (op, rest) => (.operator op, rest)

/-- **Reading a lexeme leads to no breach.** -/
theorem scan_eq_ok (decimalComma : Bool) (t : Text) :
    scan decimalComma t = .ok (scan? decimalComma t) := by
  unfold scan scan?
  split
  · rfl
  · rfl
  · rfl
  · rename_i c rest _ _
    cases isMark c with
    | true => rfl
    | false =>
      cases hdigit : c.isDigit with
      | true =>
        obtain ⟨x, hx⟩ :=
          Option.ne_none_iff_exists'.1 (Literal.scan?_ne_none hdigit decimalComma rest)
        simp [hx]
      | false =>
        cases hstart : Name.isStart c with
        | true => simp [Name.scan?, hstart]
        | false => rfl

/-- The text of a lexeme. -/
def spelling : Lexeme → Text
  | .parenOpen => ['(']
  | .parenClose => [')']
  | .operator op => op.symbol.toList
  | .number l => l.spelling
  | .name n => n
  | .mark c => [c]

theorem symbol_append_of_operator? {t rest : Text} {op : Operator}
    (h : operator? t = some (op, rest)) : op.symbol.toList ++ rest = t := by
  have hsym {u : Text} {o : Operator} (ho : Operator.ofSymbol? (String.ofList u) = some o) :
      o.symbol.toList = u := by
    have := List.find?_some ho
    simp only [decide_eq_true_eq] at this
    rw [this, String.toList_ofList]
  simp only [operator?] at h
  split at h
  · rename_i hop
    simp only [Option.some.injEq, Prod.mk.injEq] at h
    obtain ⟨rfl, rfl⟩ := h
    simp [hsym hop]
  · simp only [Option.map_eq_some_iff, Prod.mk.injEq] at h
    obtain ⟨o, ho, rfl, rfl⟩ := h
    rw [hsym ho]
    exact List.take_append_drop 1 _

theorem spelling_append_of_scan? {decimalComma : Bool} {t rest : Text} {l : Lexeme}
    (h : scan? decimalComma t = some (l, rest)) : l.spelling ++ rest = t := by
  simp only [scan?] at h
  split at h
  · simp at h
  · simp only [Option.some.injEq, Prod.mk.injEq] at h
    obtain ⟨rfl, rfl⟩ := h
    rfl
  · simp only [Option.some.injEq, Prod.mk.injEq] at h
    obtain ⟨rfl, rfl⟩ := h
    rfl
  · split at h
    · simp only [Option.some.injEq, Prod.mk.injEq] at h
      obtain ⟨rfl, rfl⟩ := h
      rfl
    · split at h
      · simp only [Option.map_eq_some_iff, Prod.mk.injEq] at h
        obtain ⟨⟨n, r⟩, hn, rfl, rfl⟩ := h
        exact Literal.spelling_append_of_scan? hn
      · split at h
        · simp only [Option.map_eq_some_iff, Prod.mk.injEq] at h
          obtain ⟨⟨w, r⟩, hw, rfl, rfl⟩ := h
          exact (Name.eq_append_of_scan? hw).1.symm
        · simp only [Option.map_eq_some_iff, Prod.mk.injEq] at h
          obtain ⟨⟨o, r⟩, ho, rfl, rfl⟩ := h
          exact symbol_append_of_operator? ho

theorem spelling_ne_nil_of_scan? {decimalComma : Bool} {t rest : Text} {l : Lexeme}
    (h : scan? decimalComma t = some (l, rest)) : l.spelling ≠ [] := by
  simp only [scan?] at h
  split at h
  · simp at h
  · simp only [Option.some.injEq, Prod.mk.injEq] at h
    obtain ⟨rfl, rfl⟩ := h
    simp [spelling]
  · simp only [Option.some.injEq, Prod.mk.injEq] at h
    obtain ⟨rfl, rfl⟩ := h
    simp [spelling]
  · split at h
    · simp only [Option.some.injEq, Prod.mk.injEq] at h
      obtain ⟨rfl, rfl⟩ := h
      simp [spelling]
    · split at h
      · simp only [Option.map_eq_some_iff, Prod.mk.injEq] at h
        obtain ⟨⟨n, r⟩, hn, rfl, rfl⟩ := h
        exact Literal.spelling_ne_nil_of_scan? hn
      · split at h
        · simp only [Option.map_eq_some_iff, Prod.mk.injEq] at h
          obtain ⟨⟨w, r⟩, hw, rfl, rfl⟩ := h
          exact (Name.eq_append_of_scan? hw).2
        · simp only [Option.map_eq_some_iff, Prod.mk.injEq] at h
          obtain ⟨⟨o, r⟩, ho, rfl, rfl⟩ := h
          cases o <;> simp [spelling, Operator.symbol]

theorem length_lt_of_scan? {decimalComma : Bool} {t rest : Text} {l : Lexeme}
    (h : scan? decimalComma t = some (l, rest)) : rest.length < t.length := by
  rw [← spelling_append_of_scan? h, List.length_append]
  have := List.length_pos_iff.2 (spelling_ne_nil_of_scan? h)
  omega

end Lexeme

end QuantityCalc
