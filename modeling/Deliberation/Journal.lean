import Deliberation.Config.Basic
import Deliberation.Data.Basic
import Deliberation.Data.Fields
import Deliberation.Graph.WalkOrder
import Deliberation.Model.Change
import Deliberation.Model.Link

/-!
The journal: what the engine logs while it works. An entry is an event together with the spans that
were open when it happened, outermost first. `Traced` is a computation that keeps a journal, also
when it fails.
-/

namespace Deliberation

def Direction.word : Direction → String
  | .forward => "Forward"
  | .backward => "Backward"

inductive Span where
  | closure (direction : Direction) (strategy : ClosureStrategy)
  | traversal (root : Id) (order : WalkOrder)
  /-- The subject is the id that the operation was asked about. -/
  | aggregation (operation : String) (subject : Id)
  | cascade (idea : Id)
deriving DecidableEq, Repr

inductive Event where
  | migrationApplied (version : Nat) (name : String)
  | cascadeCompleted (idea : Id) (links : Nat)
  | cascadeFailed (idea : Id) (reason : String)
  | alreadyTombstoned (idea : Id)
  | nativeClosure (root : Id) (direction : Direction) (inclusive : Bool) (size : Nat)
  | fixedPointClosure (roots rounds size : Nat)
  | snapshotLoaded (ideas links : Nat)
  | countingPosts (idea : Id) (posts : Nat)
  | resolvedPerIdea (post : Id) (ideas : Nat)
  | checkpointed
  | changed (change : Change)
deriving DecidableEq, Repr

inductive Level where
  | debug
  | info
  | warn
deriving DecidableEq, Repr

def Level.word : Level → String
  | .debug => "DEBUG"
  | .info => "INFO"
  | .warn => "WARN"

structure Entry where
  spans : List Span
  event : Event
deriving DecidableEq, Repr

namespace Span

def name : Span → String
  | .closure .. => "agora.closure"
  | .traversal .. => "agora.traversal"
  | .aggregation .. => "agora.aggregation"
  | .cascade .. => "agora.cascade"

def fields : Span → List (String × Data)
  | .closure direction strategy =>
    [("direction", .text direction.word), ("strategy", Data.ofNamed strategy)]
  | .traversal root order => [("root", .int root), ("order", Data.ofNamed order)]
  | .aggregation operation subject => [("operation", .text operation), ("idea", .int subject)]
  | .cascade idea => [("idea", .int idea)]

def toData (span : Span) : Data := .record (("name", .text span.name) :: span.fields)

end Span

namespace Event

def level : Event → Level
  | .migrationApplied .. | .cascadeCompleted .. | .checkpointed | .changed .. => .info
  | .cascadeFailed .. => .warn
  | .alreadyTombstoned .. | .nativeClosure .. | .fixedPointClosure .. | .snapshotLoaded ..
  | .countingPosts .. | .resolvedPerIdea .. => .debug

def message : Event → String
  | .migrationApplied .. => "applied schema migration"
  | .cascadeCompleted .. => "tombstone cascade committed"
  | .cascadeFailed .. => "tombstone cascade rolled back"
  | .alreadyTombstoned .. => "idea already tombstoned"
  | .nativeClosure .. => "native closure"
  | .fixedPointClosure .. => "fixed-point closure"
  | .snapshotLoaded .. => "traversal snapshot loaded"
  | .countingPosts .. => "counting related post text"
  | .resolvedPerIdea .. => "resolved ideas per linked idea"
  | .checkpointed => "wal checkpoint completed"
  | .changed (.created _) => "idea created"
  | .changed (.modified _ _) => "idea modified"
  | .changed (.deleted _) => "idea tombstoned"

def details : Event → List (String × Data)
  | .migrationApplied version name => [("version", .int version), ("name", .text name)]
  | .cascadeCompleted idea links =>
    [("event", .text "cascade_completed"), ("idea_id", .int idea), ("links_tombstoned", .int links)]
  | .cascadeFailed idea reason =>
    [("event", .text "cascade_failed"), ("idea_id", .int idea), ("reason", .text reason)]
  | .alreadyTombstoned idea => [("idea_id", .int idea)]
  | .nativeClosure root direction inclusive size =>
    [("root", .int root), ("direction", .text direction.word), ("inclusive", .bool inclusive),
      ("size", .int size)]
  | .fixedPointClosure roots rounds size =>
    [("roots", .int roots), ("rounds", .int rounds), ("size", .int size)]
  | .snapshotLoaded ideas links => [("ideas", .int ideas), ("links", .int links)]
  | .countingPosts idea posts => [("idea", .int idea), ("posts", .int posts)]
  | .resolvedPerIdea post ideas => [("post", .int post), ("ideas", .int ideas)]
  | .checkpointed => []
  | .changed (.created idea) => [("event", .text "idea_created"), ("idea_id", .int idea)]
  | .changed (.modified idea version) =>
    [("event", .text "idea_modified"), ("idea_id", .int idea), ("version", .int version)]
  | .changed (.deleted idea) => [("event", .text "idea_deleted"), ("idea_id", .int idea)]

end Event

def Entry.toData (entry : Entry) : Data := .record [
  ("level", .text entry.event.level.word),
  ("fields", .record (("message", .text entry.event.message) :: entry.event.details)),
  ("spans", .list (entry.spans.map Span.toData))]

def Entry.within (span : Span) (entry : Entry) : Entry :=
  { entry with spans := span :: entry.spans }

structure Traced (α : Type) where
  entries : List Entry
  result : Except Error α

namespace Traced

variable {α β : Type}

def ofExcept (result : Except Error α) : Traced α := ⟨[], result⟩

/-- One computation after another. What was logged before a failure stays in the journal. -/
def andThen (x : Traced α) (next : α → Traced β) : Traced β :=
  match x.result with
  | .ok a => ⟨x.entries ++ (next a).entries, (next a).result⟩
  | .error e => ⟨x.entries, .error e⟩

instance : Monad Traced where
  pure a := ofExcept (.ok a)
  bind := andThen

def note (event : Event) : Traced Unit := ⟨[⟨[], event⟩], .ok ()⟩

def within (span : Span) (x : Traced α) : Traced α := ⟨x.entries.map (Entry.within span), x.result⟩

/-- The result of a sequence follows from the results of its parts alone. -/
theorem result_bind (x : Traced α) (next : α → Traced β) :
    (x >>= next).result = x.result >>= fun a => (next a).result := by
  show (x.andThen next).result = x.result >>= fun a => (next a).result
  unfold andThen
  cases h : x.result with
  | ok a => rfl
  | error e => rfl

end Traced

end Deliberation
