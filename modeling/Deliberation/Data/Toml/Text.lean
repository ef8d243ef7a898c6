import Deliberation.Data.Reader
import Deliberation.Numeral

/-!
Quoted texts of the format TOML: on one line or on several, with escapes or without.
-/

namespace Deliberation.Toml

open Reader

def isBlank (c : Char) : Bool := c == ' ' || c == '\t'

def blanks : Reader Unit := (fun _ => ()) <$> run isBlank

/-- Reads the end of a line, which counts as one character. -/
def newline : Reader Char := (fun _ => '\n') <$> either (word ['\n']) (word ['\r', '\n'])

/-- A character that may stand in a comment or, but for quotes and escapes, in a text. -/
def isPlain (c : Char) : Bool := c == '\t' || (0x20 ≤ c.toNat && c.toNat != 0x7F)

def isBasic (c : Char) : Bool := isPlain c && c != '"' && c != '\\'

def isLiteral (c : Char) : Bool := isPlain c && c != '\''

def codePoint (count : Nat) : Reader Char := do
  let digits ← peek count
  word digits
  if digits.length = count then
    match Numeral.nat? 16 digits with
    | some n => if n.isValidChar then pure (Char.ofNat n) else refuse
    | none => refuse
  else refuse

def escape : Reader Char := do
  char '\\'
  match ← satisfying fun _ => true with
  | 'b' => pure (Char.ofNat 8)
  | 't' => pure '\t'
  | 'n' => pure '\n'
  | 'f' => pure (Char.ofNat 12)
  | 'r' => pure '\r'
  | '"' => pure '"'
  | '\\' => pure '\\'
  | 'u' => codePoint 4
  | 'U' => codePoint 8
  | _ => refuse

def basicText : Reader (List Char) := do
  char '"'
  let content ← many (either (satisfying isBasic) escape)
  char '"'
  pure content

def literalText : Reader (List Char) := do
  char '\''
  let content ← run isLiteral
  char '\''
  pure content

/-- Reads the end of a line after a backslash, and all blanks and ends of lines after it. -/
def foldedLine : Reader (List Char) := do
  char '\\'
  blanks
  let _ ← newline
  let _ ← many (either (satisfying isBlank) newline)
  pure []

/-- Reads one or two quotes that do not end a text on several lines. -/
def innerQuotes (quote : Char) : Reader (List Char) := do
  let quotes ← run (· == quote)
  if quotes.length = 1 ∨ quotes.length = 2 then pure quotes else refuse

/-- Reads the end of a text on several lines. Up to two quotes before it belong to the text. -/
def closingQuotes (quote : Char) : Reader (List Char) := do
  let quotes ← run (· == quote)
  if 3 ≤ quotes.length ∧ quotes.length ≤ 5 then pure (quotes.drop 3) else refuse

/-- Reads a text on several lines. A first empty line does not belong to it. -/
def blockText (quote : Char) (piece : Reader (List Char)) : Reader (List Char) := do
  word [quote, quote, quote]
  let _ ← maybe newline
  let pieces ← many (either piece (either (List.singleton <$> newline) (innerQuotes quote)))
  let last ← closingQuotes quote
  pure (pieces.flatten ++ last)

/-- Reads a piece of a text on several lines between double quotes. -/
def basicPiece : Reader (List Char) :=
  either (List.singleton <$> satisfying isBasic) (either foldedLine (List.singleton <$> escape))

/-- Reads a piece of a text on several lines between single quotes. -/
def literalPiece : Reader (List Char) := List.singleton <$> satisfying isLiteral

def text : Reader (List Char) := do
  match ← peek 3 with
  | ['"', '"', '"'] => blockText '"' basicPiece
  | ['\'', '\'', '\''] => blockText '\'' literalPiece
  | '"' :: _ => basicText
  | _ => literalText

end Deliberation.Toml
