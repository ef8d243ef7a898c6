import Deliberation.Data.Basic
import Deliberation.Decimal
import Deliberation.Id
import Deliberation.Named
import Deliberation.Timestamp

/-!
Reading typed values from data documents. Reading is strict: a value of another type is refused, and
so is a number outside the range of its type. Of a record only the wanted fields are looked at. A
record may also be written as the list of its fields.
-/

namespace Deliberation.Data

structure Format where
  /-- Whether a list that stands for a record may have more items than the record has fields. -/
  surplusItems : Bool
  /-- A value of a vocabulary may be written as a record of one field with its name. This says what
  that field may hold. -/
  isPayload : Data → Bool

def Format.json : Format where
  surplusItems := false
  isPayload
    | .null => true
    | _ => false

def Format.toml : Format where
  surplusItems := true
  isPayload
    | .list [] => true
    | .record [] => true
    | _ => false

structure Fields where
  find? : String → Option Data
  /-- Whether the record was written as a list, in which no field can be passed over. -/
  positional : Bool

/-- The fields of a record that has the fields `names`. A record that says one of them twice is
refused. -/
def fields? (format : Format) (names : List String) : Data → Option Fields
  | .record fields =>
    if names.all fun name => (fields.filter fun field => field.1 == name).length ≤ 1 then
      some ⟨fun name => fields.lookup name, false⟩
    else none
  | .list items =>
    if format.surplusItems || items.length ≤ names.length then
      some ⟨fun name => (names.zip items).lookup name, true⟩
    else none
  | _ => none

def nullable? {α : Type} (read? : Data → Option α) : Data → Option (Option α)
  | .null => some none
  | data => (read? data).map some

namespace Fields

variable {α : Type}

def required (fields : Fields) (name : String) (read? : Data → Option α) : Option α :=
  (fields.find? name).bind read?

def defaulting (fields : Fields) (name : String) (default : α) (read? : Data → Option α) :
    Option α :=
  match fields.find? name with
  | none => some default
  | some data => read? data

def optional (fields : Fields) (name : String) (read? : Data → Option α) : Option (Option α) :=
  fields.defaulting name none (nullable? read?)

/-- Reads a field that may be null, and that may be absent from a record but not from a list. -/
def nullable (fields : Fields) (name : String) (read? : Data → Option α) : Option (Option α) :=
  if fields.positional then fields.required name (nullable? read?) else fields.optional name read?

end Fields

def bool? : Data → Option Bool
  | .bool value => some value
  | _ => none

def text? : Data → Option String
  | .text value => some value
  | _ => none

def intBetween? (least greatest : Int) : Data → Option Int
  | .int value => if least ≤ value ∧ value ≤ greatest then some value else none
  | _ => none

def id? : Data → Option Id := intBetween? Id.least Id.greatest

def nat32? (data : Data) : Option Nat := (intBetween? 0 4294967295 data).map Int.toNat

def nat64? (data : Data) : Option Nat := (intBetween? 0 18446744073709551615 data).map Int.toNat

/-- Reads a floating number, which may be written as a whole number. -/
def float? : Data → Option Float
  | .int value => some (Decimal.ofInt value)
  | .float value => some value
  | _ => none

def list? {α : Type} (read? : Data → Option α) : Data → Option (List α)
  | .list items => items.mapM read?
  | _ => none

def texts? : Data → Option (List String) := list? text?

def named? {α : Type} [Named α] (format : Format) : Data → Option α
  | .text name => Named.ofName? name
  | .record [(name, payload)] => if format.isPayload payload then Named.ofName? name else none
  | _ => none

def timestamp? (data : Data) : Option Timestamp :=
  (text? data).bind Timestamp.ofText?

def ofNamed {α : Type} [Named α] (a : α) : Data := .text (Named.name a)

def ofTimestamp (t : Timestamp) : Data := .text t.text

end Deliberation.Data
