import Deliberation.Proofs.Attempt
import Deliberation.Session.Basic

/-!
Failed requests. A write of several steps is atomic; a write of one step has made all its checks
before that step. So no failure of any request leaves a trace in the store, whatever the store looks
like, and a watcher does not hear of it.
-/

namespace Deliberation

namespace Store

variable {now : Timestamp}

theorem harmless_addRow {ρ : Type} {action : String} {table : Store → Table ρ}
    {place : Table ρ → Store → Store} {row : ρ} : (addRow action table place row).Harmless := by
  intro store after e h
  unfold addRow at h
  split at h
  · cases h
  · cases h
    rfl

theorem harmless_insertIdea (new : NewIdea) : (insertIdea now new).Harmless := by
  apply Attempt.Harmless.read_bind
  intro _
  split
  · exact Attempt.Harmless.read_bind fun _ => harmless_addRow
  · exact harmless_addRow

theorem harmless_createPost (new : NewPost) : (createPost now new).Harmless :=
  Attempt.Harmless.read_bind fun _ => Attempt.Harmless.read_bind fun _ => harmless_addRow

theorem harmless_linkContent (new : NewContentLink) : (linkContent now new).Harmless :=
  Attempt.Harmless.read_bind fun _ => harmless_addRow

theorem harmless_recordAction (new : NewAction) : (recordAction now new).Harmless :=
  Attempt.Harmless.read_bind fun _ => harmless_addRow

/-- Taking an action back fails only if it is not there to be taken back. -/
theorem harmless_retractAction (id : Id) : (retractAction now id).Harmless := by
  intro store after e h
  unfold retractAction at h
  split at h
  · cases h
  · cases h
    rfl

/-- Only the cascade changes anything, and it is atomic under the words for its failures. -/
theorem harmless_tombstoneIdea (id : Id) : (tombstoneIdea now id).Harmless := by
  apply Attempt.Harmless.read_bind
  intro idea
  split
  · exact Attempt.harmless_fail _
  · split
    · exact Attempt.harmless_pure _
    · exact ((Attempt.harmless_atomic _).mapError _).bind_certain fun _ => Attempt.certain_pure _

end Store

/-- No request changes the store when it fails. -/
theorem Request.harmless_perform (now : Timestamp) (request : Request) :
    (request.perform now).Harmless := by
  cases request with
  | createDiscussion new =>
    exact (Attempt.harmless_atomic _).bind_certain fun _ => Attempt.certain_pure _
  | createIdea new =>
    exact (Store.harmless_insertIdea new).bind_certain fun _ => Attempt.certain_pure _
  | updateIdea idea patch =>
    exact (Attempt.harmless_atomic _).bind_certain fun _ => Attempt.certain_pure _
  | tombstoneIdea idea =>
    exact (Store.harmless_tombstoneIdea idea).bind_certain fun _ => Attempt.certain_pure _
  | moveIdea idea parent order =>
    exact (Attempt.harmless_atomic _).bind_certain fun _ => Attempt.certain_pure _
  | createLink new => exact (Attempt.harmless_atomic _).bind_certain fun _ => Attempt.certain_pure _
  | tombstoneLink link =>
    exact (Attempt.harmless_atomic _).bind_certain fun _ => Attempt.certain_pure _
  | reorderLink link order =>
    exact (Attempt.harmless_atomic _).bind_certain fun _ => Attempt.certain_pure _
  | createPost new =>
    exact (Store.harmless_createPost new).bind_certain fun _ => Attempt.certain_pure _
  | linkContent new =>
    exact (Store.harmless_linkContent new).bind_certain fun _ => Attempt.certain_pure _
  | recordAction new =>
    exact (Store.harmless_recordAction new).bind_certain fun _ => Attempt.certain_pure _
  | retractAction action =>
    exact (Store.harmless_retractAction action).bind_certain fun _ => Attempt.certain_pure _

/-- The journal of a failure tells no change of an idea. -/
theorem Request.failureEntries_silent (e : Error) :
    ∀ entry ∈ failureEntries e, ∀ change, entry.event ≠ .changed change := by
  intro entry hentry change
  unfold failureEntries at hentry
  split at hentry
  · rw [List.mem_singleton.mp hentry]
    exact Event.noConfusion
  · cases hentry

namespace Session

/-- What a watcher keeps and logs of no changes is nothing. -/
theorem hear_nil (watcher : Watcher) : Watcher.hear watcher [] = ([], []) := by
  cases watcher with
  | nobody => rfl
  | recording => rfl
  | tracing => rfl

/-- A request that fails, on whatever store, leaves every table as it was, and with the tables the
ids that their next rows get. The watcher hears nothing: nothing is kept for a recording one, and
nothing that a tracing one would have logged comes into the journal. -/
theorem failed_request_leaves_no_trace {now : Timestamp} {request : Request}
    {session after : Session} {e : Error} (h : perform now request session = (.error e, after)) :
    after.store = session.store ∧ after.heard = session.heard ∧
    ∃ entries, after.journal = session.journal ++ entries ∧
      ∀ entry ∈ entries, ∀ change, entry.event ≠ .changed change := by
  unfold perform at h
  split at h
  · cases h
  · rename_i cause store hfail
    cases h
    have hstore : store = session.store := request.harmless_perform now hfail
    refine ⟨?_, ?_, Request.failureEntries e, ?_, Request.failureEntries_silent e⟩
    · rw [hstore]
      simp only [report, hear_nil]
    · simp only [report, hear_nil, List.append_nil]
    · simp only [report, hear_nil, List.append_nil]

/-- A session with an idea 3 below idea 2, which has the last version that can be told. -/
def exhausted : Session where
  medium := .memory
  watcher := .recording
  store := {
    discussions := ⟨[⟨"energy", "Energy", .legible [], .legible ⟨0, 0⟩⟩]⟩
    ideas := ⟨[.ofNew ⟨0, 0⟩ (Store.rootOf 1 "Energy"),
      { Store.IdeaRow.ofNew ⟨0, 0⟩ { discussion := 1 } with version := .whole 4294967295 },
      .ofNew ⟨0, 0⟩ { discussion := 1 }]⟩
    links := ⟨[.ofNew ⟨0, 0⟩ { source := 2, target := 3 }]⟩ }

/-- A link that is to be put into another place has been removed and added again when the version of
its source runs out. -/
theorem failed_reorder_leaves_no_trace : ∃ after,
    perform ⟨0, 0⟩ (.reorderLink 1 .zero) exhausted =
      (.error (.database (.during ("bump version of idea " ++ Id.text 2)
        (.outOfRange 0 4294967296))), after) ∧
    after.store = exhausted.store ∧ after.heard = exhausted.heard ∧
    ∃ entries, after.journal = exhausted.journal ++ entries ∧
      ∀ entry ∈ entries, ∀ change, entry.event ≠ .changed change := by
  have hfail : ∃ after, perform ⟨0, 0⟩ (.reorderLink 1 .zero) exhausted =
      (.error (.database (.during ("bump version of idea " ++ Id.text 2)
        (.outOfRange 0 4294967296))), after) := ⟨_, rfl⟩
  obtain ⟨after, hfail⟩ := hfail
  exact ⟨after, hfail, failed_request_leaves_no_trace hfail⟩

end Session

end Deliberation
