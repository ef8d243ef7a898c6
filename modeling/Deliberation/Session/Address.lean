import Deliberation.Config.Basic
import Deliberation.Numeral

/-!
What the path in the settings says. It stands for itself unless it is written as an address: the
scheme `file:`, an authority if there is one, the path, and options after a question mark. A percent
sign with two hexadecimal digits stands for a byte; a zero byte ends the part of the address that it
is in. A number sign ends the address.
-/

namespace Deliberation

inductive Access where
  | reading
  | writing
  | creating
  | inMemory
deriving DecidableEq, Repr

instance : Named Access where
  all := [.reading, .writing, .creating, .inMemory]
  name
    | .reading => "ro"
    | .writing => "rw"
    | .creating => "rwc"
    | .inMemory => "memory"

structure Address where
  file : String
  options : List (String × String) := []
deriving DecidableEq, Repr

namespace Address

def unescaped : List Char → List Char
  | '%' :: high :: low :: rest =>
    match Numeral.nat? 16 [high, low] with
    | some byte => Char.ofNat byte :: unescaped rest
    | none => '%' :: unescaped (high :: low :: rest)
  | c :: rest => c :: unescaped rest
  | [] => []

def part (cs : List Char) : String :=
  String.ofList ((unescaped cs).takeWhile (· != Char.ofNat 0))

/-- An option: a name, and a value after an equals sign. One without a name says nothing. -/
def option? (cs : List Char) : Option (String × String) :=
  let name := part (cs.takeWhile (· != '='))
  if name = "" then none else some (name, part ((cs.dropWhile (· != '=')).drop 1))

/-- The address without its authority, which can only be this machine. -/
def afterAuthority : List Char → Except DatabaseFault (List Char)
  | '/' :: '/' :: cs =>
    let authority := String.ofList (cs.takeWhile (· != '/'))
    if authority = "" ∨ authority = "localhost" then .ok (cs.dropWhile (· != '/'))
    else .error (.noAuthority authority)
  | cs => .ok cs

def ofParts (cs : List Char) : Address :=
  let cs := cs.takeWhile (· != '#')
  let options := String.ofList ((cs.dropWhile (· != '?')).drop 1)
  ⟨part (cs.takeWhile (· != '?')), (options.splitOn "&").filterMap (option? ·.toList)⟩

def checkOption : String × String → Except DatabaseFault Unit
  | ("cache", value) =>
    if value = "shared" ∨ value = "private" then .ok () else .error (.noMode "cache" value)
  | ("mode", value) =>
    if (Named.ofName? value : Option Access).isSome then .ok () else .error (.noMode "access" value)
  | _ => .ok ()

/-- The value of an option: the last one counts. -/
def value? (address : Address) (name : String) : Option String :=
  address.options.reverse.lookup name

def fileSystems : List String := ["unix", "unix-none", "unix-dotfile", "unix-excl", "memdb"]

def checkFileSystem (address : Address) : Except DatabaseFault Unit :=
  match address.value? "vfs" with
  | some name => if fileSystems.contains name then .ok () else .error (.noFileSystem name)
  | none => .ok ()

def ofText (text : String) : Except DatabaseFault Address :=
  match text.toList with
  | 'f' :: 'i' :: 'l' :: 'e' :: ':' :: cs => do
    let address := ofParts (← afterAuthority cs)
    address.options.forM checkOption
    address.checkFileSystem
    return address
  | _ => .ok ⟨text, []⟩

/-- What may be done with the database, if the address says so. -/
def access? (address : Address) : Option Access := (address.value? "mode").bind Named.ofName?

/-- Whether the database is to be kept in memory; a file without a name is none. -/
def isInMemory (address : Address) : Bool :=
  address.file == Config.memoryPath || address.file == "" || address.access? == some .inMemory

/-- Whether all connections are to share what is kept in memory under a name. -/
def isShared (address : Address) : Bool :=
  address.file != "" && address.value? "cache" == some "shared"

def mayCreate (address : Address) : Bool :=
  match address.access? with
  | some .reading | some .writing => false
  | _ => true

def refusedToReaders? (address : Address) : Option Access :=
  address.access?.filter fun access => access = .writing ∨ access = .creating

end Address

end Deliberation
