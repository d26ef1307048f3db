import QuantityCalc.Lexeme.Basic

/-!
# The words of commands

A command begins with a keyword, in any case of its letters, with a name and an equals sign, or it
is an expression.
-/

namespace QuantityCalc

/-- The keywords of commands. -/
inductive Keyword where
  /-- Writes values. -/
  | print
  /-- Declares a variable. -/
  | var
  /-- Declares a unit. -/
  | unit
  /-- Declares a function. -/
  | func
  /-- Ends a function with a value. -/
  | returning
  /-- Declares a namespace. -/
  | space
  /-- Removes a name. -/
  | remove
  /-- Runs a script. -/
  | read
  /-- Writes the visible items. -/
  | list
deriving DecidableEq, Repr

namespace Keyword

/-- All keywords. -/
def all : List Keyword := [print, var, unit, func, returning, space, remove, read, list]

/-- The spelling of a keyword in small letters. -/
def spelling : Keyword → String
  | print => "print"
  | var => "var"
  | unit => "unit"
  | func => "func"
  | returning => "return"
  | space => "namespace"
  | remove => "remove"
  | read => "read"
  | list => "list"

/-- The keyword that a word is. -/
def ofWord? (word : Text) : Option Keyword :=
  all.find? (·.spelling.toList = word.map Char.toLower)

/-- The keyword at the front of a text, with the text behind it. -/
def scan? (t : Text) : Option (Keyword × Text) := do
  let (word, rest) ← Name.scan? t
  return (← ofWord? word, rest)

end Keyword

namespace Name

/-- The further segments of a dotted name, each with its point, and the text behind them. -/
def segmentsFrom (t : Text) : Text × Text :=
  match t with
  | '.' :: t' =>
    match h : scan? t' with
    | some (word, rest) =>
      have := length_lt_of_scan? h
      let (more, rest) := segmentsFrom rest
      ('.' :: word ++ more, rest)
    | none => ([], t)
  | _ => ([], t)
termination_by t.length
decreasing_by
  simp only [List.length_cons]
  omega

/-- The dotted name behind the white space at the front of a text, with the text behind it. -/
def path? (t : Text) : Option (String × Text) := do
  let (word, rest) ← scan? (Text.trimStart t)
  let (more, rest) := segmentsFrom rest
  return (String.ofList (word ++ more), rest)

/-- The dotted name and the text behind an equals sign, if a text starts so. Two equals signs
compare and do not assign. -/
def assignment? (t : Text) : Option (String × Text) := do
  let (path, rest) ← path? t
  match Text.trimStart rest with
  | '=' :: '=' :: _ => none
  | '=' :: expression => return (path, expression)
  | _ => none

end Name

end QuantityCalc
