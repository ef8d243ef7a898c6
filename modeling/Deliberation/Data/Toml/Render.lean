import Deliberation.Data.Basic
import Deliberation.Decimal

/-!
Writing data documents in the format TOML. Every entry of the document becomes a line; lists and
tables below it are written within that line.
-/

namespace Deliberation.Toml

def quotedChar (c : Char) : String :=
  if c = '"' then "\\\""
  else if c = '\\' then "\\\\"
  else if c.toNat < 0x20 ∨ c.toNat = 0x7F then
    "\\u00" ++ String.ofList [Nat.digitChar (c.toNat / 16), Nat.digitChar (c.toNat % 16)]
  else String.singleton c

def quoted (text : String) : String :=
  "\"" ++ String.join (text.toList.map quotedChar) ++ "\""

def renderFloat (x : Float) : String :=
  if x.isFinite then Decimal.exact x
  else if x.isNaN then "nan"
  else if x < 0 then "-inf"
  else "inf"

mutual

/-- The text of a value. There is none for null, for a whole number outside the signed 64-bit range,
or for a value that denotes nothing. -/
def renderValue? : Data → Option String
  | .null => none
  | .bool value => some (if value then "true" else "false")
  | .int value => if -9223372036854775808 ≤ value ∧
      value < 9223372036854775808 then some (toString value) else none
  | .float value => some (renderFloat value)
  | .text value => some (quoted value)
  | .list items => (renderItems? items).map fun texts => "[" ++ ", ".intercalate texts ++ "]"
  | .record fields =>
    (renderFields? fields).map fun texts => "\x7b " ++ ", ".intercalate texts ++ " \x7d"
  | .unreadable => none

def renderItems? : List Data → Option (List String)
  | [] => some []
  | item :: rest => do
    let first ← renderValue? item
    return first :: (← renderItems? rest)

def renderFields? : List (String × Data) → Option (List String)
  | [] => some []
  | (name, value) :: rest => do
    let first ← renderValue? value
    return (quoted name ++ " = " ++ first) :: (← renderFields? rest)

end

def render? : Data → Option String
  | .record fields => (renderFields? fields).map fun lines => String.join (lines.map (· ++ "\n"))
  | _ => none

end Deliberation.Toml
