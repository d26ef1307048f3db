import QuantityCalc.Settings.Variables
import QuantityCalc.Text.Basic
import QuantityCalc.Text.Letter

/-!
# Files of variables

A file of variables has lines `NAME=value`, also with `export` before the name. A value may stand
in quotes, run over several lines within them, and refer to other variables as `$NAME` or `${NAME}`,
but not between single quotes. A `#` behind white space starts a comment.

A variable that is set already keeps its value. The first line of another form ends the reading.
-/

namespace QuantityCalc.Settings.VariableFile

/-! ### Lines -/

/-- Where a character of a file stands. -/
inductive Place where
  /-- Outside of quotes. -/
  | outside
  /-- Behind white space outside of quotes. -/
  | behindBlank
  /-- Behind a backslash outside of quotes. -/
  | escaped
  /-- In quotes. -/
  | inside (quote : Char)
  /-- Behind a backslash in quotes. -/
  | escapedInside (quote : Char)
deriving DecidableEq

/-- The place behind a character. -/
def Place.next (c : Char) : Place → Place
  | .outside =>
    if c = '\\' then .escaped
    else if c = '"' || c = '\'' then .inside c
    else if Text.isBlank c && c ≠ '\n' && c ≠ '\r' then .behindBlank
    else .outside
  | .behindBlank =>
    if c = '\\' then .escaped else if c = '"' || c = '\'' then .inside c else .outside
  | .escaped => .outside
  | .inside quote =>
    if c = '\\' then .escapedInside quote else if c = quote then .outside else .inside quote
  | .escapedInside quote => .inside quote

/-- How a line of a file ends a line of variables. -/
inductive LineEnd where
  /-- At this place. -/
  | at (place : Place)
  /-- At a comment, with so much of the line before it. -/
  | comment (before : Text)

/-- Follows the characters of a line. -/
def follow (place : Place) : Text → LineEnd
  | [] => .at place
  | c :: t =>
    if place = .behindBlank && c = '#' then .comment []
    else
      match follow (place.next c) t with
      | .at place => .at place
      | .comment before => .comment (c :: before)

/-- The lines of a text, with their line feeds. -/
def rawLines (t : Text) : List Text :=
  let pieces := t.splitOn '\n'
  pieces.dropLast.map (· ++ ['\n']) ++ (pieces.getLast?.filter (!·.isEmpty)).toList

/-- A line without its line feed. -/
def withoutFeed (t : Text) : Text :=
  match t.reverse with
  | '\n' :: '\r' :: t => t.reverse
  | '\n' :: t => t.reverse
  | _ => t

/-- Joins the lines of a file to lines of variables: a line that ends within quotes goes on in the
next one. The text `before` was read of a line that goes on from a place. An unfinished line is
`none`, and nothing follows it. -/
def joined (before : Text) (place : Place) : List Text → List (Option Text)
  | [] => if place = .outside then [] else [none]
  | line :: lines =>
    let whole := before ++ line
    if (Text.trimStart whole).head? = some '#' then some [] :: joined [] .outside lines
    else
      match follow place line with
      | .at .outside => some (withoutFeed whole) :: joined [] .outside lines
      | .at place => joined whole place lines
      | .comment part => some (before ++ part) :: joined [] .outside lines

/-! ### Values -/

/-- How the next character of a value is read. -/
inductive Mode where
  /-- As a part of the value, in double quotes or not. -/
  | plain (quoted : Bool)
  /-- As what a backslash protects. -/
  | shielded (quoted : Bool)
  /-- Between single quotes. -/
  | single
  /-- In the name of a variable. -/
  | name (quoted : Bool) (soFar : Text)
  /-- In the name of a variable in braces. -/
  | braced (quoted : Bool) (soFar : Text)
  /-- Behind the value. -/
  | behind

/-- The value of a variable. It is empty if the variable is not set. -/
def lookUp (v : Variables) (name : Text) : Text :=
  ((v.lookup (String.ofList name)).getD "").toList

/-- Reads the rest of a value. -/
def value? (v : Variables) : Mode → Text → Option Text
  | .plain quoted, [] => if quoted then none else some []
  | .shielded quoted, [] => if quoted then none else some []
  | .single, [] => none
  | .name quoted soFar, [] => if quoted then none else some (lookUp v soFar)
  | .braced .., [] => none
  | .behind, [] => some []
  | .behind, c :: t =>
    if c = ' ' || c = '\t' then value? v .behind t else if c = '#' then some [] else none
  | .shielded quoted, c :: t =>
    if c ∈ ['\\', '\'', '"', '$', ' '] then (value? v (.plain quoted) t).map (c :: ·)
    else if c = 'n' then (value? v (.plain quoted) t).map ('\n' :: ·)
    else none
  | .single, c :: t =>
    if c = '\'' then value? v (.plain false) t else (value? v .single t).map (c :: ·)
  | .name quoted soFar, c :: t =>
    if Text.isLetter c || Text.isNumeral c then value? v (.name quoted (soFar ++ [c])) t
    else if c = '{' && soFar.isEmpty then value? v (.braced quoted []) t
    else if c = '$' then (value? v (.name quoted []) t).map (lookUp v soFar ++ ·)
    else (value? v (.plain quoted) t).map (lookUp v soFar ++ c :: ·)
  | .braced quoted soFar, c :: t =>
    if c = '}' then (value? v (.plain quoted) t).map (lookUp v soFar ++ ·)
    else value? v (.braced quoted (soFar ++ [c])) t
  | .plain quoted, c :: t =>
    if c = '$' then value? v (.name quoted []) t
    else if c = '\\' then value? v (.shielded quoted) t
    else if c = '"' then value? v (.plain !quoted) t
    else if !quoted && c = '\'' then value? v .single t
    else if !quoted && (c = ' ' || c = '\t') then value? v .behind t
    else (value? v (.plain quoted) t).map (c :: ·)

/-! ### Files -/

/-- The name at the front of a text, and the text behind the white space after it. -/
def name? (t : Text) : Option (Text × Text) :=
  let isInner (c : Char) := c.isAlphanum || c = '_' || c = '.'
  if t.head?.any fun c => c.isAlpha || c = '_' then
    some (t.takeWhile isInner, Text.trimStart (t.dropWhile isInner))
  else none

/-- The name of the variable at the front of a text, and the text behind its equals sign. The word
`export` may stand before the name, and is a name itself if the equals sign follows it. -/
def head? (t : Text) : Option (Text × Text) := do
  let (name, t) ← name? t
  match Text.dropLead? ['='] t with
  | some t => return (name, t)
  | none =>
    if name ≠ "export".toList then failure
    let (name, t) ← name? t
    return (name, ← Text.dropLead? ['='] t)

/-- The variables after a line, if it is of the right form. -/
def line? (v : Variables) (t : Text) : Option Variables :=
  let t := Text.trim t
  if t.isEmpty || t.head? = some '#' then some v
  else do
    let (name, t) ← head? t
    let t := Text.trimStart t
    let value ← if t.head? = some '#' then some [] else value? v (.plain false) t
    let name := String.ofList name
    if (v.lookup name).isSome then return v else return v ++ [(name, String.ofList value)]

/-- The variables after the lines up to the first one that is not of the right form. -/
def settle (v : Variables) : List (Option Text) → Variables
  | some t :: lines =>
    match line? v t with
    | some v => settle v lines
    | none => v
  | _ => v

/-- The variables after reading a file. A mark of the order of bytes may stand at its start. -/
def load (v : Variables) (t : Text) : Variables :=
  settle v (joined [] .outside (rawLines ((Text.dropLead? ['\uFEFF'] t).getD t)))

end QuantityCalc.Settings.VariableFile
