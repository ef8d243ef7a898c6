import Deliberation.Session.Medium
import Deliberation.Session.Schema
import Deliberation.Store.Request

/-!
Sessions: an open database with its watcher. What is kept in memory is lost when the session is
closed.
-/

namespace Deliberation

inductive Watcher where
  | nobody
  | recording
  | tracing
deriving DecidableEq, Repr

structure Session where
  medium : Medium
  watcher : Watcher
  store : Store := {}
  schema : Int := Schema.current
  /-- Whether columns are held to their vocabularies. -/
  checks : Bool := true
  heard : List Change := []
  journal : List Entry := []

structure Session.Info where
  schema : Nat
  readers : Option Nat
  writeAheadLog : Bool
  hasPath : Bool
deriving DecidableEq, Repr

namespace Session

def log {α : Type} (x : Traced α) : Attempt Session α := fun session =>
  (x.result, { session with journal := session.journal ++ x.entries })

def migrate : Attempt Session Nat := do
  let session ← .state
  let version ← log (Schema.migrate session.schema)
  .modify fun session => { session with schema := version }
  return version

def start (medium : Medium) (watcher : Watcher) : Session :=
  (migrate { medium, watcher, schema := 0 }).2

def info (session : Session) : Except Error Info := do
  let schema ← Schema.readVersion session.schema
  return match session.medium with
    | .memory | .memoryBySettings => ⟨schema, none, false, false⟩
    | .file readers writeAheadLog => ⟨schema, some readers, writeAheadLog, true⟩
    | .shared readers | .apart readers => ⟨schema, some readers, false, true⟩

def reopened (session : Session) : Session :=
  let medium := session.medium.again
  if medium.isLasting then { session with medium, checks := true }
  else
    let fresh := start medium session.watcher
    { fresh with heard := session.heard, journal := session.journal ++ fresh.journal }

def reopen : Attempt Session Unit := .atomic do
  .modify reopened
  let _ ← migrate

/-- What the watcher makes of some changes: what it keeps, and what it logs. -/
def Watcher.hear (watcher : Watcher) (changes : List Change) : List Change × List Entry :=
  match watcher with
  | .nobody => ([], [])
  | .recording => (changes, [])
  | .tracing => ([], changes.map fun change => ⟨[], .changed change⟩)

/-- The session with more in its journal, and with changes for the watcher to hear. -/
def report (session : Session) (entries : List Entry) (changes : List Change) : Session :=
  let (kept, logged) := Watcher.hear session.watcher changes
  { session with
    heard := session.heard ++ kept
    journal := session.journal ++ entries ++ logged }

/-- Carries out a request. The watcher hears of it only if it succeeds. -/
def perform (now : Timestamp) (request : Request) : Attempt Session request.Reply := fun session =>
  match request.perform now session.store with
  | (.ok receipt, store) =>
    (.ok receipt.reply, { session with store }.report receipt.entries receipt.changes)
  | (.error e, store) => (.error e, { session with store }.report (Request.failureEntries e) [])

/-- The session as it goes on when what it has heard and logged has been taken away. -/
def drained (session : Session) : Session := { session with heard := [], journal := [] }

end Session

end Deliberation
