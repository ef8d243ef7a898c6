import Deliberation.Data.Basic
import Deliberation.Decimal.Shortest
import Deliberation.Numeral

/-!
Data documents in the format JSON. A text is first cut into tokens and the tokens are then built
into a value. Both passes go through their input once from left to right and hold what they know so
far in a state.
-/

namespace Deliberation.Json

inductive Token where
  | openList
  | closeList
  | openRecord
  | closeRecord
  | comma
  | colon
  /-- A quoted text; none if half of a surrogate pair stands alone in it. -/
  | text (content : Option String)
  | atom (value : Data)

inductive Piece where
  | char (c : Char)
  /-- Half of a surrogate pair, written as an escape. -/
  | half (unit : Nat)

/-- The text of `pieces`; none if half of a surrogate pair stands alone. -/
def joinPieces : List Piece → Option (List Char)
  | [] => some []
  | .char c :: rest => (joinPieces rest).map (c :: ·)
  | .half high :: .half low :: rest =>
    if high < 0xDC00 ∧ 0xDC00 ≤ low then
      (joinPieces rest).map (Char.ofNat (0x10000 + (high - 0xD800) * 0x400 + (low - 0xDC00)) :: ·)
    else none
  | .half _ :: _ => none

def escaped? : Char → Option Char
  | '"' => some '"'
  | '\\' => some '\\'
  | '/' => some '/'
  | 'b' => some (Char.ofNat 8)
  | 'f' => some (Char.ofNat 12)
  | 'n' => some '\n'
  | 'r' => some '\r'
  | 't' => some '\t'
  | _ => none

def Piece.ofUnit (unit : Nat) : Piece :=
  if 0xD800 ≤ unit ∧ unit < 0xE000 then .half unit else .char (Char.ofNat unit)

/-- The digits of a whole number: a zero, or digits that do not begin with one. -/
def wholeDigits? (cs : List Char) : Option (List Char × List Char) :=
  match cs with
  | '0' :: rest => some (['0'], rest)
  | _ =>
    let digits := cs.takeWhile Numeral.isDecimal
    if digits.isEmpty then none else some (digits, cs.drop digits.length)

/-- The digits of a fraction; none of them if there is no fraction. -/
def fractionDigits? : List Char → Option (List Char × List Char)
  | '.' :: cs =>
    let digits := cs.takeWhile Numeral.isDecimal
    if digits.isEmpty then none else some (digits, cs.drop digits.length)
  | cs => some ([], cs)

/-- The exponent that is all of `cs`; zero if there is none. -/
def exponent? : List Char → Option Int
  | [] => some 0
  | c :: cs => if c = 'e' ∨ c = 'E' then Numeral.int? cs else none

/-- A whole number that fits into 64 bits, with or without a sign bit. Other whole numbers, and the
negative zero, are floating numbers. -/
def isWhole (negative : Bool) (n : Nat) : Bool :=
  if negative then 0 < n && n ≤ 9223372036854775808 else n < 18446744073709551616

/-- The floating number nearest to some digits and an exponent. One that is beyond all of them
cannot be read. -/
def floatValue (negative : Bool) (digits : Nat) (exponent : Int) : Data :=
  let x := Decimal.nearest negative digits exponent
  if x.isFinite then .float x else .unreadable

/-- The value of a number given by its sign, its digits before and after the point, and its exponent
if it has a fraction or an exponent. -/
def numberValue (negative : Bool) (whole fraction : List Char) (exponent : Option Int) : Data :=
  let digits := (Numeral.nat? 10 (whole ++ fraction)).getD 0
  match exponent with
  | none =>
    if isWhole negative digits then .int (if negative then -(digits : Int) else digits)
    else floatValue negative digits 0
  | some e => floatValue negative digits (e - fraction.length)

def unsigned? (negative : Bool) (cs : List Char) : Option Data := do
  let (whole, rest) ← wholeDigits? cs
  if rest.isEmpty then return numberValue negative whole [] none
  let (fraction, rest) ← fractionDigits? rest
  let exponent ← exponent? rest
  return numberValue negative whole fraction (some exponent)

def number? : List Char → Option Data
  | '-' :: cs => unsigned? true cs
  | cs => unsigned? false cs

/-- Reads a number or one of the three words of the format. -/
def atom? (cs : List Char) : Option Data :=
  match String.ofList cs with
  | "null" => some .null
  | "true" => some (.bool true)
  | "false" => some (.bool false)
  | _ => number? cs

inductive Place where
  | between
  | inAtom (read : List Char)
  | inText (read : List Piece)
  | inEscape (read : List Piece)
  | inUnit (read : List Piece) (digits : List Char)

structure Cutting where
  tokens : List Token
  place : Place

def mark? : Char → Option Token
  | '[' => some .openList
  | ']' => some .closeList
  | '{' => some .openRecord
  | '}' => some .closeRecord
  | ',' => some .comma
  | ':' => some .colon
  | _ => none

def isBlank (c : Char) : Bool :=
  c == ' ' || c == '\t' || c == '\n' || c == '\r'

def cutBetween (tokens : List Token) (c : Char) : Cutting :=
  if isBlank c then ⟨tokens, .between⟩
  else if c = '"' then ⟨tokens, .inText []⟩
  else match mark? c with
    | some token => ⟨token :: tokens, .between⟩
    | none => ⟨tokens, .inAtom [c]⟩

def endAtom (tokens : List Token) (read : List Char) : Option (List Token) :=
  (atom? read.reverse).map fun value => .atom value :: tokens

def cut (state : Cutting) (c : Char) : Option Cutting :=
  let tokens := state.tokens
  match state.place with
  | .between => some (cutBetween tokens c)
  | .inAtom read =>
    if isBlank c || c == '"' || (mark? c).isSome then
      (endAtom tokens read).map fun tokens => cutBetween tokens c
    else some ⟨tokens, .inAtom (c :: read)⟩
  | .inText read =>
    if c = '"' then
      some ⟨.text ((joinPieces read.reverse).map String.ofList) :: tokens, .between⟩
    else if c = '\\' then some ⟨tokens, .inEscape read⟩
    else if c.toNat < 0x20 then none
    else some ⟨tokens, .inText (.char c :: read)⟩
  | .inEscape read =>
    if c = 'u' then some ⟨tokens, .inUnit read []⟩
    else (escaped? c).map fun d => ⟨tokens, .inText (.char d :: read)⟩
  | .inUnit read digits =>
    if Numeral.isHexadecimal c then
      let digits := digits ++ [c]
      if digits.length < 4 then some ⟨tokens, .inUnit read digits⟩
      else (Numeral.nat? 16 digits).map fun unit => ⟨tokens, .inText (.ofUnit unit :: read)⟩
    else none

def tokens? (cs : List Char) : Option (List Token) := do
  let state ← cs.foldlM cut ⟨[], .between⟩
  match state.place with
  | .between => return state.tokens.reverse
  | .inAtom read => (endAtom state.tokens read).map List.reverse
  | _ => none

inductive Frame where
  | list (items : List Data)
  | record (fields : List (Option String × Data)) (name : Option String)

inductive Need where
  | value
  | firstItem
  | name
  | firstName
  | colon
  | more
  | nothing (root : Data)

structure Building where
  frames : List Frame := []
  need : Need := .value
  /-- The greatest number of frames that were open at once. -/
  depth : Nat := 0
  /-- Whether every number and every text so far could be read. -/
  readable : Bool := true

structure Document where
  root : Data
  depth : Nat
  readable : Bool

namespace Building

def put (b : Building) (value : Data) : Building :=
  match b.frames with
  | [] => { b with need := .nothing value }
  | .list items :: rest => { b with frames := .list (value :: items) :: rest, need := .more }
  | .record fields name :: rest =>
    { b with frames := .record ((name, value) :: fields) none :: rest, need := .more }

def push (b : Building) (frame : Frame) (need : Need) : Building :=
  let frames := frame :: b.frames
  { b with frames := frames, need := need, depth := max b.depth frames.length }

/-- The value of a record with the fields in reverse; it cannot be read if one of its names
cannot. -/
def recordValue (fields : List (Option String × Data)) : Data :=
  match fields.reverse.mapM fun (name, value) => name.map fun name => (name, value) with
  | some fields => .record fields
  | none => .unreadable

def takeValue (b : Building) : Token → Option Building
  | .openList => some (b.push (.list []) .firstItem)
  | .openRecord => some (b.push (.record [] none) .firstName)
  | .text (some content) => some (b.put (.text content))
  | .text none => some ({ b with readable := false }.put .unreadable)
  | .atom .unreadable => some ({ b with readable := false }.put .unreadable)
  | .atom value => some (b.put value)
  | _ => none

def takeName (b : Building) : Token → Option Building
  | .text content =>
    match b.frames with
    | .record fields _ :: rest =>
      some { b with
        frames := .record fields content :: rest
        need := .colon
        readable := b.readable && content.isSome }
    | _ => none
  | _ => none

def takeClose (b : Building) (token : Token) : Option Building :=
  match token, b.frames with
  | .closeList, .list items :: rest => some ({ b with frames := rest }.put (.list items.reverse))
  | .closeRecord, .record fields _ :: rest =>
    some ({ b with frames := rest }.put (recordValue fields))
  | _, _ => none

def afterComma (b : Building) : Option Building :=
  match b.frames with
  | .list _ :: _ => some { b with need := .value }
  | .record _ _ :: _ => some { b with need := .name }
  | [] => none

def step (b : Building) (token : Token) : Option Building :=
  match b.need with
  | .value => b.takeValue token
  | .firstItem =>
    match token with
    | .closeList => b.takeClose token
    | _ => b.takeValue token
  | .name => b.takeName token
  | .firstName =>
    match token with
    | .closeRecord => b.takeClose token
    | _ => b.takeName token
  | .colon =>
    match token with
    | .colon => some { b with need := .value }
    | _ => none
  | .more =>
    match token with
    | .comma => b.afterComma
    | _ => b.takeClose token
  | .nothing _ => none

end Building

def read? (text : String) : Option Document := do
  let tokens ← tokens? text.toList
  let b ← tokens.foldlM Building.step {}
  match b.need with
  | .nothing root => return ⟨root, b.depth, b.readable⟩
  | _ => none

def value? (text : String) : Option Data :=
  (read? text).map Document.root

def controlDigits (n : Nat) : String :=
  String.ofList [Nat.digitChar (n / 16), Nat.digitChar (n % 16)]

/-- The letter that a character is escaped with, if there is one for it. -/
def escapeLetter? : Char → Option Char
  | '"' => some '"'
  | '\\' => some '\\'
  | '\x08' => some 'b'
  | '\x0c' => some 'f'
  | '\n' => some 'n'
  | '\r' => some 'r'
  | '\t' => some 't'
  | _ => none

def quotedChar (c : Char) : String :=
  match escapeLetter? c with
  | some letter => String.ofList ['\\', letter]
  | none => if c.toNat < 0x20 then "\\u00" ++ controlDigits c.toNat else String.singleton c

def quoted (text : String) : String :=
  "\"" ++ String.join (text.toList.map quotedChar) ++ "\""

/-- A finite number in the fewest digits that read back. Numbers below a hundred thousandth, and
from ten quadrillions on, have an exponent. -/
def finite (x : Float) : String :=
  let (digits, point) := Decimal.pointed (Decimal.shortest x)
  let magnitude :=
    if digits.isEmpty then "0.0"
    else if -5 < point ∧ point ≤ 16 then Decimal.positional digits point
    else Decimal.scientific digits point
  if Binary64.isNegative x.toBits then "-" ++ magnitude else magnitude

mutual

/-- The text of a value. A number that is not finite, and a value that denotes nothing, have none
and are written as null. -/
def render : Data → String
  | .null => "null"
  | .bool value => if value then "true" else "false"
  | .int value => toString value
  | .float value => if value.isFinite then finite value else "null"
  | .text value => quoted value
  | .list items => "[" ++ ",".intercalate (renderItems items) ++ "]"
  | .record fields => "\x7b" ++ ",".intercalate (renderFields fields) ++ "\x7d"
  | .unreadable => "null"

def renderItems : List Data → List String
  | [] => []
  | item :: rest => render item :: renderItems rest

def renderFields : List (String × Data) → List String
  | [] => []
  | (name, value) :: rest => (quoted name ++ ":" ++ render value) :: renderFields rest

end

end Deliberation.Json
