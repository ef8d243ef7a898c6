import Deliberation.Proofs.Session.History

/-!
Notices: what a watcher is told, whoever it is. A recording watcher keeps the changes and a tracing
one logs them, so that one has to look into different places of a session; from there on it makes no
difference.
-/

namespace Deliberation

/-- The change that an entry of the journal tells, if it tells one. -/
def Entry.change? (entry : Entry) : Option Change :=
  match entry.event with
  | .changed change => some change
  | _ => none

theorem Entry.change?_eq_none {entry : Entry} (h : ∀ change, entry.event ≠ .changed change) :
    entry.change? = none := by
  unfold change?
  split
  · rename_i change hevent
    exact absurd hevent (h change)
  · rfl

/-- The changes that a request reports: none if it fails. -/
def Request.reports (now : Timestamp) (request : Request) (store : Store) : List Change :=
  match request.perform now store with
  | (.ok receipt, _) => receipt.changes
  | (.error _, _) => []

/-- The journal of a request that succeeds tells no change; the watcher alone logs changes. -/
theorem Request.Effect.entries_silent {now : Timestamp} {request : Request} {store after : Store}
    {receipt : Receipt request.Reply} (heffect : request.Effect now store receipt after) :
    ∀ entry ∈ receipt.entries, ∀ change, entry.event ≠ .changed change := by
  intro entry hentry change
  cases heffect with
  | tombstoneAgain | tombstoneIdea =>
    obtain rfl := List.mem_singleton.mp hentry
    exact Event.noConfusion
  | _ => cases hentry

namespace Session

/-- What the watcher of a session has been told, in order. -/
def noticed (session : Session) : List Change :=
  match session.watcher with
  | .nobody => []
  | .recording => session.heard
  | .tracing => session.journal.filterMap Entry.change?

theorem filterMap_change?_silent {entries : List Entry}
    (h : ∀ entry ∈ entries, ∀ change, entry.event ≠ .changed change) :
    entries.filterMap Entry.change? = [] :=
  List.filterMap_eq_nil_iff.mpr fun entry hentry => Entry.change?_eq_none (h entry hentry)

/-- A watcher is told the changes that are reported to it, after all that it has been told
before. -/
theorem noticed_report {session : Session} {entries : List Entry} (changes : List Change)
    (hwatched : session.watcher ≠ .nobody)
    (hsilent : ∀ entry ∈ entries, ∀ change, entry.event ≠ .changed change) :
    (session.report entries changes).noticed = session.noticed ++ changes := by
  cases hwatcher : session.watcher with
  | nobody => exact absurd hwatcher hwatched
  | recording => simp [report, noticed, hwatcher, Watcher.hear]
  | tracing =>
    simp only [report, noticed, hwatcher, Watcher.hear, List.filterMap_append,
      filterMap_change?_silent hsilent, List.append_nil, List.filterMap_map]
    exact congrArg (_ ++ ·) List.filterMap_some

variable {session : Session}

theorem watcher_perform (now : Timestamp) (request : Request) :
    (perform now request session).2.watcher = session.watcher := by
  unfold perform
  split <;> rfl

/-- What a request reports is what the watcher notices, behind all that it has noticed before. -/
theorem noticed_perform (now : Timestamp) (request : Request)
    (hwatched : session.watcher ≠ .nobody) :
    (perform now request session).2.noticed =
      session.noticed ++ request.reports now session.store := by
  rcases hperform : request.perform now session.store with ⟨answer, after⟩
  cases answer with
  | ok receipt =>
    simp only [perform, Request.reports, hperform]
    exact @noticed_report { session with store := after } _ receipt.changes hwatched
      (Request.effect_of_perform hperform).entries_silent
  | error e =>
    simp only [perform, Request.reports, hperform]
    exact @noticed_report { session with store := after } _ [] hwatched
      (Request.failureEntries_silent e)

/-- A request that is carried out has a receipt with the reply, and a watcher is told what it
says. -/
theorem exists_effect {now : Timestamp} {request : Request} {reply : request.Reply}
    {after : Session} (hdone : perform now request session = (.ok reply, after)) :
    ∃ receipt, receipt.reply = reply ∧ request.Effect now session.store receipt after.store ∧
      (session.watcher ≠ .nobody → after.noticed = session.noticed ++ receipt.changes) := by
  have hstore := store_perform now request session
  have hnoticed : session.watcher ≠ .nobody → (perform now request session).2.noticed =
      session.noticed ++ request.reports now session.store := noticed_perform now request
  rw [hdone] at hstore hnoticed
  rcases hperform : request.perform now session.store with ⟨answer, store⟩
  cases answer with
  | ok receipt =>
    rw [hperform] at hstore
    rw [Request.reports, hperform] at hnoticed
    obtain rfl : after.store = store := hstore
    have hreply : receipt.reply = reply := by
      simpa [perform, hperform] using congrArg Prod.fst hdone
    exact ⟨receipt, hreply, Request.effect_of_perform hperform, hnoticed⟩
  | error e => simp [perform, hperform] at hdone

/-- A request that changes nothing and has nothing to tell leaves a session as it is, but for the
journal. -/
theorem perform_idle {now : Timestamp} {request : Request}
    {receipt : Request.Receipt request.Reply}
    (hidle : request.perform now session.store = (.ok receipt, session.store))
    (hsilent : receipt.changes = []) :
    ∃ after, perform now request session = (.ok receipt.reply, after) ∧
      after.store = session.store ∧ after.noticed = session.noticed := by
  refine ⟨(perform now request session).2, ?_, ?_, ?_⟩
  · simp only [perform, hidle]
  · rw [store_perform, hidle]
  · by_cases hwatched : session.watcher = .nobody
    · simp only [noticed, watcher_perform, hwatched]
    · rw [noticed_perform now request hwatched, Request.reports, hidle]
      simp only [hsilent, List.append_nil]

end Session

/-- The changes that the requests of a history report, one request after another. -/
def History.reports : History → Store → List Change
  | [], _ => []
  | (now, request) :: rest, store =>
    request.reports now store ++ reports rest (request.perform now store).2

namespace Session

variable {session : Session}

theorem watcher_carryOut (history : History) :
    (carryOut history session).watcher = session.watcher := by
  induction history generalizing session with
  | nil => rfl
  | cons entry rest ih => exact ih.trans (watcher_perform entry.1 entry.2)

/-- A watcher is told what the requests report, and nothing else. -/
theorem noticed_carryOut (history : History) (hwatched : session.watcher ≠ .nobody) :
    (carryOut history session).noticed = session.noticed ++ history.reports session.store := by
  induction history generalizing session with
  | nil => exact (List.append_nil _).symm
  | cons entry rest ih =>
    obtain ⟨now, request⟩ := entry
    have hstill : (perform now request session).2.watcher ≠ .nobody := by
      rw [watcher_perform]
      exact hwatched
    rw [carryOut, ih hstill, noticed_perform now request hwatched, store_perform, History.reports,
      List.append_assoc]

/-- The same of a request after a history. -/
theorem exists_effect_after_history {medium : Medium} {watcher : Watcher} {history : History}
    {now : Timestamp} {request : Request} {reply : request.Reply} {session after : Session}
    (hsession : carryOut history (start medium watcher) = session)
    (hdone : perform now request session = (.ok reply, after)) :
    ∃ receipt, receipt.reply = reply ∧ request.Effect now session.store receipt after.store ∧
      (watcher ≠ .nobody → after.noticed = session.noticed ++ receipt.changes) := by
  subst hsession
  obtain ⟨receipt, hreply, heffect, hnoticed⟩ := exists_effect hdone
  refine ⟨receipt, hreply, heffect, fun hwatched => hnoticed ?_⟩
  rw [watcher_carryOut]
  exact hwatched

/-- A new session has told its watcher nothing yet. -/
theorem noticed_start (medium : Medium) (watcher : Watcher) :
    (start medium watcher).noticed = [] := by
  cases watcher with
  | nobody => rfl
  | recording => rfl
  | tracing => rfl

end Session

end Deliberation
