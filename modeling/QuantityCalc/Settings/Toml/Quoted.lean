import QuantityCalc.Decimal.Reading
import QuantityCalc.Text.Reader

/-!
# Strings of TOML

A string stands between double quotes, where a backslash starts an escape, or between single
quotes, where every character stands for itself. Between three quotes it may run over several lines:
a line break right behind the opening quotes is not part of it, up to two quotes may stand anywhere
in it, and between double quotes a backslash at the end of a line joins the next text to it.
-/

namespace QuantityCalc.Settings.Toml

open Reader

/-- Whether a character is a blank within a line. -/
def isSpace (c : Char) : Bool := c = ' ' || c = '\t'

/-- Whether a character may stand in a string or a comment: any but the control characters, apart
from the tab. -/
def isPlain (c : Char) : Bool := c = '\t' || (' ' ≤ c && c ≠ '\x7f')

/-- A line break. -/
def lineBreak : Reader Unit := word ['\n'] <|> word ['\r', '\n']

/-- The character with a number in so many hexadecimal digits. -/
def numbered (digits : Nat) : Reader Char := do
  let ds ← times (char fun c => c.isDigit || c.toLower ∈ "abcdef".toList) digits
  let n := Decimal.ofDigits 16 ds
  if n.isValidChar then return Char.ofNat n else failure

/-- What a backslash and the character behind it stand for. -/
def escape : Reader Char := do
  word ['\\']
  match ← char fun _ => true with
  | 'b' => return '\x08'
  | 't' => return '\t'
  | 'n' => return '\n'
  | 'f' => return '\x0c'
  | 'r' => return '\r'
  | '"' => return '"'
  | '\\' => return '\\'
  | 'u' => numbered 4
  | 'U' => numbered 8
  | _ => failure

/-- A string between single quotes in a line. -/
def literal : Reader Text := do
  word ['\'']
  let s ← span fun c => isPlain c && c ≠ '\''
  word ['\'']
  return s

/-- A string between double quotes in a line. -/
def basic : Reader Text := do
  word ['"']
  let s ← many (char (fun c => isPlain c && c ≠ '"' && c ≠ '\\') <|> escape)
  word ['"']
  return s

/-- A backslash at the end of a line, with the blanks and line breaks behind it. -/
def joint : Reader Unit := do
  word ['\\']
  let _ ← span isSpace
  lineBreak
  let _ ← many (lineBreak <|> (fun _ => ()) <$> span1 isSpace)

/-- One or two quotes that no further quote follows. -/
def innerQuotes (quote : Char) : Reader Text := do
  let quotes ← span1 (· = quote)
  if quotes.length < 3 then return quotes else failure

/-- A string between triple quotes, of the given pieces. Quotes right before the closing ones are
part of it. -/
def multiline (quote : Char) (piece : Reader Text) : Reader Text := do
  let fence := List.replicate 3 quote
  word fence
  let _ ← maybe lineBreak
  let pieces ← many (piece <|> (fun _ => ['\n']) <$> lineBreak <|> innerQuotes quote)
  let quotes ← span (· = quote)
  if 3 ≤ quotes.length && quotes.length ≤ 5 then return pieces.flatten ++ quotes.drop 3 else failure

/-- A string between triple single quotes. -/
def multilineLiteral : Reader Text :=
  multiline '\'' (span1 fun c => isPlain c && c ≠ '\'')

/-- A string between triple double quotes. -/
def multilineBasic : Reader Text :=
  multiline '"' (span1 (fun c => isPlain c && c ≠ '"' && c ≠ '\\') <|> (fun _ => []) <$> joint <|>
    List.singleton <$> escape)

/-- A string in a line. -/
def quoted : Reader Text := basic <|> literal

/-- A string. -/
def string : Reader Text := multilineBasic <|> multilineLiteral <|> quoted

end QuantityCalc.Settings.Toml
