import Deliberation.Session.Address
import Deliberation.Session.Path

/-!
Where a database is kept. A path names a file, or else memory: then every connection has a database
of its own unless the path asks for one that all of them share. Only the path in the settings of a
private database is looked at before the connections are made; it leaves a single connection.
-/

namespace Deliberation

inductive Medium where
  | memory
  /-- In memory, with a single connection, because the settings say the path that stands for
  memory. -/
  | memoryBySettings
  | file (readers : Nat) (writeAheadLog : Bool)
  /-- In memory, where the connections for reading find what was written. -/
  | shared (readers : Nat)
  /-- In memory, where the connections for reading find nothing. -/
  | apart (readers : Nat)
deriving DecidableEq, Repr

namespace Medium

def mostReaders : Nat := 8

def readers (settings : Config.Storage) : Nat := min (max settings.readers 1) mostReaders

def ofFile (settings : Config.Storage) : Medium := .file (readers settings) settings.writeAheadLog

/-- The number of bytes before the first zero byte of a text. -/
def zeroByte? (text : String) : Option Nat :=
  if text.contains (Char.ofNat 0) then
    some (String.ofList (text.toList.takeWhile (· != Char.ofNat 0))).utf8ByteSize
  else none

def address (settings : Config.Storage) : Except DatabaseFault Address :=
  match zeroByte? settings.path with
  | some position => .error (.zeroByte position)
  | none => Address.ofText settings.path

def writerFault (settings : Config.Storage) (fault : DatabaseFault) : Error :=
  .database (.during ("open writer " ++ settings.path) fault)

/-- What is kept in memory at an address. What can only be read stays empty, and the first migration
fails. -/
def inMemory (settings : Config.Storage) (address : Address) : Except Error Medium :=
  if address.access? = some .reading then
    .error (.migration 1 (Error.database .readOnly).message)
  else .ok (if address.isShared then .shared (readers settings) else .apart (readers settings))

def inFile (occupant? : Path → Option Occupant) (settings : Config.Storage) (address : Address) :
    Except Error Medium :=
  let path := Path.ofText address.file
  match occupant? path with
  | some .document => .error (.database .notDatabase)
  | some .device => .error (.database .inputOutput)
  | _ =>
    if address.mayCreate && path.isFree occupant? then .ok (ofFile settings)
    else .error (writerFault settings (.cannotOpen settings.path))

/-- Where the database of some settings is kept. The connection for writing is made first. -/
def ofSettings (occupant? : Path → Option Occupant) (settings : Config.Storage) :
    Except Error Medium :=
  if settings.isInMemory then .ok .memoryBySettings
  else do
    let address ← (address settings).mapError (writerFault settings)
    let medium ← if address.isInMemory then inMemory settings address
      else inFile occupant? settings address
    match address.refusedToReaders? with
    | some access =>
      .error (.database (.during "open reader" (.accessRefused (Named.name access))))
    | none => .ok medium

/-- Whether what was written is there after the last connection has been closed. -/
def isLasting : Medium → Bool
  | .file _ _ => true
  | _ => false

/-- The medium of a database that is opened again, at the same path and with default settings. -/
def again : Medium → Medium
  | .memory => .memory
  | .memoryBySettings | .apart _ => .apart (readers {})
  | .shared _ => .shared (readers {})
  | .file _ _ => ofFile {}

end Medium

end Deliberation
