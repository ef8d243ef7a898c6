import Deliberation.Id

/-!
Why an operation fails. Each failure is a value that names its cause; `Error.message` has the words.
-/

namespace Deliberation

inductive Misfit where
  | floating
  | text
deriving DecidableEq, Repr

def Misfit.word : Misfit → String
  | .floating => "Real"
  | .text => "Text"

inductive DatabaseFault where
  | badDate (column : Nat)
  | unknownName (column : Nat) (text : String)
  | outOfRange (column : Nat) (value : Int)
  | notWhole (held : Misfit) (column : Nat) (name : String)
  | noRow
  | notUnique (column : String)
  | isNull (column : String)
  | noTable (name : String)
  | badLocales
  /-- A table has as many rows as there are ids. -/
  | full
  | tombstoneBlocked
  | cannotOpen (path : String)
  | zeroByte (position : Nat)
  | noAuthority (name : String)
  | noMode (what value : String)
  | noFileSystem (name : String)
  | accessRefused (access : String)
  | notDatabase
  | inputOutput
  | readOnly
  | during (action : String) (cause : DatabaseFault)
  | told (text : String)
deriving DecidableEq, Repr

def DatabaseFault.message : DatabaseFault → String
  | .badDate column => "Conversion error from type Text at index: " ++ toString column
  | .unknownName column text =>
    "Conversion error from type Text at index: " ++ toString column ++
      ", unknown discriminator '" ++ text ++ "'"
  | .outOfRange column value =>
    "Integer " ++ toString value ++ " out of range at index " ++ toString column
  | .notWhole held column name =>
    "Invalid column type " ++ held.word ++ " at index: " ++ toString column ++ ", name: " ++ name
  | .noRow => "Query returned no rows"
  | .notUnique column => "UNIQUE constraint failed: " ++ column
  | .isNull column => "NOT NULL constraint failed: " ++ column
  | .noTable name => "no such table: " ++ name
  | .badLocales => "parse locales:"
  | .full => "database or disk is full"
  | .tombstoneBlocked => "tombstone blocked"
  | .cannotOpen path => "unable to open database file: " ++ path
  | .zeroByte position => "nul byte found in provided data at position: " ++ toString position
  | .noAuthority name => "invalid uri authority: " ++ name
  | .noMode what value => "no such " ++ what ++ " mode: " ++ value
  | .noFileSystem name => "no such vfs: " ++ name
  | .accessRefused access => "access mode not allowed: " ++ access
  | .notDatabase => "file is not a database"
  | .inputOutput => "disk I/O error"
  | .readOnly => "attempt to write a readonly database"
  | .during action cause => action ++ ": " ++ cause.message
  | .told text => text

inductive LinkFault where
  | sourceTombstoned (source : Id)
  | targetTombstoned (target : Id)
  | differentDiscussions (ofSource ofTarget : Id)
  | told (text : String)
deriving DecidableEq, Repr

def LinkFault.message : LinkFault → String
  | .sourceTombstoned source => "source idea " ++ source.text ++ " is tombstoned"
  | .targetTombstoned target => "target idea " ++ target.text ++ " is tombstoned"
  | .differentDiscussions ofSource ofTarget =>
    "ideas belong to discussions " ++ ofSource.text ++ " and " ++ ofTarget.text
  | .told text => text

inductive NonFinite where
  | nan
  | infinite
  | negativeInfinite
deriving DecidableEq, Repr

def NonFinite.text : NonFinite → String
  | .nan => "NaN"
  | .infinite => "inf"
  | .negativeInfinite => "-inf"

inductive Violation where
  | ideaTombstoned (idea : Id)
  | linkTombstoned (link : Id)
  | rootTombstone (idea discussion : Id)
  | rootMove (idea : Id)
  | moveUnderItself (idea : Id)
  | linkOrder (order : NonFinite)
  | parentElsewhere (parent discussion : Id)
  | importantButNotExtract (kind : String)
  | ideaAndPostApart (idea post : Id)
  | noLiveAction (action : Id)
  | unknownKey (what key : String)
  | told (text : String)
deriving DecidableEq, Repr

def Violation.message : Violation → String
  | .ideaTombstoned idea => "idea " ++ idea.text ++ " is tombstoned"
  | .linkTombstoned link => "idea link " ++ link.text ++ " is tombstoned"
  | .rootTombstone idea discussion =>
    "root idea " ++ idea.text ++ " of discussion " ++ discussion.text ++ " cannot be tombstoned"
  | .rootMove idea => "root idea " ++ idea.text ++ " cannot be moved"
  | .moveUnderItself idea => "idea " ++ idea.text ++ " cannot be moved under itself"
  | .linkOrder order => "link order must be finite, got " ++ order.text
  | .parentElsewhere parent discussion =>
    "parent post " ++ parent.text ++ " belongs to discussion " ++ discussion.text
  | .importantButNotExtract kind => "only extracts can be important, got " ++ kind
  | .ideaAndPostApart idea post =>
    "idea " ++ idea.text ++ " and post " ++ post.text ++ " belong to different discussions"
  | .noLiveAction action => "no live post action with id " ++ action.text
  | .unknownKey what key => "fixture references unknown " ++ what ++ " '" ++ key ++ "'"
  | .told text => text

inductive ConfigFault where
  /-- The text does not parse, or does not fit the fields; `source` says which text. -/
  | unreadable (source : String)
  | emptyReadPool
  | badWeight (field : String)
  | unknownLogLevel (level : String)
  | told (text : String)
deriving DecidableEq, Repr

def ConfigFault.message : ConfigFault → String
  | .unreadable source => source ++ ":"
  | .emptyReadPool => "storage.read_pool_size: must be greater than 0"
  | .badWeight field => "analytics.word_weights." ++ field ++ ": must be a non-negative number"
  | .unknownLogLevel level => "observability.log_level: unknown level '" ++ level ++ "'"
  | .told text => text

inductive ConcurrencyFault where
  | reentered
  | neverRan
  | told (text : String)
deriving DecidableEq, Repr

def ConcurrencyFault.message : ConcurrencyFault → String
  | .reentered => "snapshot callback reentered"
  | .neverRan => "snapshot callback never ran"
  | .told text => text

inductive Error where
  | discussionNotFound (id : Id)
  | ideaNotFound (id : Id)
  | linkNotFound (id : Id)
  | postNotFound (id : Id)
  | duplicateRoot (discussion : Id)
  | invalidLink (source target : Id) (reason : LinkFault)
  | cascadeFailed (idea : Id) (reason : String)
  | validation (reason : Violation)
  | database (fault : DatabaseFault)
  | migration (version : Int) (reason : String)
  | corruption (details : String)
  | unsupported (operation reason : String)
  | serialization
  | config (fault : ConfigFault)
  | concurrency (fault : ConcurrencyFault)
deriving DecidableEq, Repr

def Error.message : Error → String
  | .discussionNotFound id => "discussion not found: " ++ id.text
  | .ideaNotFound id => "idea not found: " ++ id.text
  | .linkNotFound id => "idea link not found: " ++ id.text
  | .postNotFound id => "post not found: " ++ id.text
  | .duplicateRoot discussion => "discussion " ++ discussion.text ++ " already has a live root idea"
  | .invalidLink source target reason =>
    "invalid idea link " ++ source.text ++ " -> " ++ target.text ++ ": " ++ reason.message
  | .cascadeFailed idea reason =>
    "tombstone cascade failed for idea " ++ idea.text ++ ": " ++ reason
  | .validation reason => "validation error: " ++ reason.message
  | .database fault => "storage error: sqlite: " ++ fault.message
  | .migration version reason =>
    "storage error: schema migration to v" ++ toString version ++ " failed: " ++ reason
  | .corruption details => "storage error: integrity check failed: " ++ details
  | .unsupported operation reason =>
    "graph error: unsupported operation " ++ operation ++ ": " ++ reason
  | .serialization => "serialization error"
  | .config fault => "config error: " ++ fault.message
  | .concurrency fault => "concurrency error: " ++ fault.message

end Deliberation
