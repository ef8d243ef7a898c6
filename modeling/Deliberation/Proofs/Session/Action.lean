import Deliberation.Proofs.Session.History
import Mathlib.Data.List.Induction

/-!
Actions over a history. What is kept of an action that was recorded is a row with its number;
retracting it marks the row and nothing else does. So the actions that stand after a history are
those that it has recorded and not retracted since, in whatever order requests about other things,
or in vain, have come between.
-/

namespace Deliberation

namespace Store

variable {store after : Store} {id : Id} {action : NewAction}

/-- There is an action with this number that has not been taken back. -/
def HasAction (store : Store) (id : Id) (action : NewAction) : Prop :=
  ∃ row, store.actions.get? id = some row ∧ row.isLive ∧
    (⟨row.kind, row.actor, row.post⟩ : NewAction) = action

/-- An agent has read a post, and has not taken back all of these readings. -/
def ReadBy (store : Store) (agent post : Id) : Prop :=
  ∃ id, store.HasAction id ⟨.read, agent, post⟩

theorem HasAction.unique {other : NewAction} (h : store.HasAction id action)
    (hother : store.HasAction id other) : action = other := by
  obtain ⟨row, hrow, -, rfl⟩ := h
  obtain ⟨again, hagain, -, rfl⟩ := hother
  rw [Option.some.inj (hrow.symm.trans hagain)]

theorem hasAction_congr (h : after.actions = store.actions) :
    after.HasAction id action ↔ store.HasAction id action := by
  rw [HasAction, HasAction, h]

theorem hasAction_push {now : Timestamp} {new : NewAction}
    (h : after.actions = store.actions.push ⟨new.kind, new.actor, new.post, now, none⟩) :
    after.HasAction id action ↔
      store.HasAction id action ∨ (store.actions.nextId = id ∧ new = action) := by
  unfold HasAction
  simp only [h, Table.get?_push_eq_some_iff]
  constructor
  · rintro ⟨row, ⟨rfl, rfl⟩ | hold, hlive, hsame⟩
    · exact Or.inr ⟨rfl, hsame⟩
    · exact Or.inl ⟨row, hold, hlive, hsame⟩
  · rintro (⟨row, hold, hlive, hsame⟩ | ⟨rfl, rfl⟩)
    · exact ⟨row, Or.inr hold, hlive, hsame⟩
    · exact ⟨_, Or.inl ⟨rfl, rfl⟩, rfl, rfl⟩

theorem hasAction_retracted {now : Timestamp} {gone : Id}
    (h : after.actions = store.actions.update gone (ActionRow.retracted now)) :
    after.HasAction id action ↔ store.HasAction id action ∧ gone ≠ id := by
  unfold HasAction
  rw [h, Table.get?_update]
  split
  · rename_i hsame
    subst hsame
    constructor
    · rintro ⟨row, hrow, hlive, -⟩
      obtain ⟨old, -, rfl⟩ := Option.map_eq_some_iff.mp hrow
      cases hlive
    · rintro ⟨-, hother⟩
      exact absurd rfl hother
  · rename_i hother
    exact (and_iff_left (Ne.symm hother)).symm

end Store

open Store

theorem Request.Effect.actions_eq {now : Timestamp} {request : Request} {store after : Store}
    {receipt : Receipt request.Reply} (heffect : request.Effect now store receipt after)
    (hrecord : ∀ new, request ≠ .recordAction new)
    (hretract : ∀ gone, request ≠ .retractAction gone) : after.actions = store.actions := by
  cases heffect with
  | recordAction => exact absurd rfl (hrecord _)
  | retractAction => exact absurd rfl (hretract _)
  | _ => rfl

namespace Session

variable {session start : Session} {now : Timestamp} {id : Id} {action : NewAction}

theorem actions_perform {request : Request} (hrecord : ∀ new, request ≠ .recordAction new)
    (hretract : ∀ gone, request ≠ .retractAction gone) :
    (perform now request session).2.store.actions = session.store.actions := by
  apply perform_keeps (P := fun store => store.actions = session.store.actions) _ rfl
  intro store after receipt heffect hstore
  exact (heffect.actions_eq hrecord hretract).trans hstore

/-- Requests about actions change nothing but the actions. -/
theorem store_perform_action (now : Timestamp) (session : Session) {request : Request}
    (h : (∃ new, request = .recordAction new) ∨ ∃ gone, request = .retractAction gone) :
    (perform now request session).2.store =
      { session.store with actions := (perform now request session).2.store.actions } := by
  apply perform_keeps (P := fun store => store =
    { session.store with actions := store.actions }) _ rfl
  intro store after receipt heffect hstore
  rcases h with ⟨new, rfl⟩ | ⟨gone, rfl⟩
  · cases heffect with
    | recordAction => rw [hstore]
  · cases heffect with
    | retractAction => rw [hstore]

/-- After a request to record an action the store has it exactly if the request was granted; all
others stay. -/
theorem hasAction_recordAction {new : NewAction} :
    (perform now (.recordAction new) session).2.store.HasAction id action ↔
      session.store.HasAction id action ∨
        ((perform now (.recordAction new) session).1 = .ok id ∧ new = action) := by
  rcases perform_cases now (.recordAction new) session with
    ⟨receipt, hdone, heffect⟩ | ⟨e, hfailed, hsame⟩
  · rw [hdone]
    generalize (perform now (.recordAction new) session).2.store = after at heffect ⊢
    cases heffect with
    | recordAction =>
      rw [hasAction_push rfl]
      simp
  · rw [hfailed, hsame]
    simp

/-- After a request to take an action back the store lacks it exactly if the request was granted;
all others stay. -/
theorem hasAction_retractAction {gone : Id} :
    (perform now (.retractAction gone) session).2.store.HasAction id action ↔
      session.store.HasAction id action ∧
        ¬((perform now (.retractAction gone) session).1 = .ok () ∧ gone = id) := by
  rcases perform_cases now (.retractAction gone) session with
    ⟨receipt, hdone, heffect⟩ | ⟨e, hfailed, hsame⟩
  · rw [hdone]
    generalize (perform now (.retractAction gone) session).2.store = after at heffect ⊢
    cases heffect with
    | retractAction =>
      rw [hasAction_retracted rfl]
      simp
  · rw [hfailed, hsame]
    simp

theorem exists_hasAction_of_retracted {gone : Id}
    (h : (perform now (.retractAction gone) session).1 = .ok ()) :
    ∃ action, session.store.HasAction gone action := by
  rcases perform_cases now (.retractAction gone) session with ⟨receipt, -, heffect⟩ |
    ⟨e, hfailed, -⟩
  · generalize (perform now (.retractAction gone) session).2.store = after at heffect
    cases heffect with
    | retractAction hrow hlive => exact ⟨_, _, hrow, hlive, rfl⟩
  · cases h.symm.trans hfailed

/-- The request at some place of a history, counted from zero, was carried out with this answer. -/
def AnsweredAt (start : Session) (history : History) (place : Nat) (request : Request)
    (reply : request.Reply) : Prop :=
  ∃ now, history[place]? = some (now, request) ∧
    (perform now request (carryOut (history.take place) start)).1 = .ok reply

/-- An action was recorded under a number, and was not retracted after that. -/
def Stands (start : Session) (history : History) (id : Id) (action : NewAction) : Prop :=
  ∃ place, AnsweredAt start history place (.recordAction action) id ∧
    ∀ later, place < later → ¬AnsweredAt start history later (.retractAction id) ()

theorem AnsweredAt.place_lt {history : History} {place : Nat} {request : Request}
    {reply : request.Reply} (h : AnsweredAt start history place request reply) :
    place < history.length := by
  obtain ⟨now, hplace, -⟩ := h
  exact (List.getElem?_eq_some_iff.mp hplace).1

/-- One more request leaves the answers before it as they are. -/
theorem answeredAt_append_of_lt {history : History} {entry : Timestamp × Request} {place : Nat}
    {request : Request} {reply : request.Reply} (h : place < history.length) :
    AnsweredAt start (history ++ [entry]) place request reply ↔
      AnsweredAt start history place request reply := by
  unfold AnsweredAt
  rw [List.getElem?_append_left h, List.take_append_of_le_length (Nat.le_of_lt h)]

/-- The last request of a history works on what those before it have left. -/
theorem answeredAt_length_iff {history : History} {given request : Request}
    {reply : request.Reply} :
    AnsweredAt start (history ++ [(now, given)]) history.length request reply ↔
      given = request ∧ (perform now request (carryOut history start)).1 = .ok reply := by
  unfold AnsweredAt
  rw [List.getElem?_concat_length, List.take_left]
  constructor
  · rintro ⟨again, hentry, hdone⟩
    obtain ⟨rfl, rfl⟩ := Prod.mk.inj (Option.some.inj hentry)
    exact ⟨rfl, hdone⟩
  · rintro ⟨rfl, hdone⟩
    exact ⟨now, rfl, hdone⟩

/-- An action stands after one more request if this request has recorded it, or if it stood before
and this request has not retracted it. -/
theorem stands_append_iff {history : History} {given : Request} :
    Stands start (history ++ [(now, given)]) id action ↔
      (Stands start history id action ∧
        ¬AnsweredAt start (history ++ [(now, given)]) history.length (.retractAction id) ()) ∨
      AnsweredAt start (history ++ [(now, given)]) history.length (.recordAction action) id := by
  have hlength : (history ++ [(now, given)]).length = history.length + 1 := List.length_append
  constructor
  · rintro ⟨place, hrecorded, hkept⟩
    have hplace := hrecorded.place_lt
    rw [hlength] at hplace
    rcases Nat.lt_succ_iff_lt_or_eq.mp hplace with hbefore | rfl
    · refine Or.inl ⟨⟨place, (answeredAt_append_of_lt hbefore).mp hrecorded, ?_⟩, hkept _ hbefore⟩
      intro later hlater hretracted
      exact hkept later hlater ((answeredAt_append_of_lt hretracted.place_lt).mpr hretracted)
    · exact Or.inr hrecorded
  · rintro (⟨⟨place, hrecorded, hkept⟩, hlast⟩ | hrecorded)
    · refine ⟨place, (answeredAt_append_of_lt hrecorded.place_lt).mpr hrecorded, ?_⟩
      intro later hlater hretracted
      have hplace := hretracted.place_lt
      rw [hlength] at hplace
      rcases Nat.lt_succ_iff_lt_or_eq.mp hplace with hbefore | rfl
      · exact hkept later hlater ((answeredAt_append_of_lt hbefore).mp hretracted)
      · exact hlast hretracted
    · refine ⟨history.length, hrecorded, ?_⟩
      intro later hlater hretracted
      have hplace := hretracted.place_lt
      omega

/-- What one request does to the actions, told by its answer. -/
theorem hasAction_perform_iff {given : Request} {history : History}
    (hsession : carryOut history start = session) :
    (perform now given session).2.store.HasAction id action ↔
      (session.store.HasAction id action ∧
        ¬AnsweredAt start (history ++ [(now, given)]) history.length (.retractAction id) ()) ∨
      AnsweredAt start (history ++ [(now, given)]) history.length (.recordAction action) id := by
  rw [answeredAt_length_iff, answeredAt_length_iff, hsession]
  cases given with
  | recordAction new =>
    rw [hasAction_recordAction]
    simp only [reduceCtorEq, false_and, not_false_eq_true, and_true, Request.recordAction.injEq]
    refine or_congr_right ⟨?_, ?_⟩
    · rintro ⟨hdone, rfl⟩
      exact ⟨rfl, hdone⟩
    · rintro ⟨rfl, hdone⟩
      exact ⟨hdone, rfl⟩
  | retractAction gone =>
    rw [hasAction_retractAction]
    simp only [reduceCtorEq, false_and, or_false, Request.retractAction.injEq]
    refine and_congr_right fun _ => not_congr ⟨?_, ?_⟩
    · rintro ⟨hdone, rfl⟩
      exact ⟨rfl, hdone⟩
    · rintro ⟨rfl, hdone⟩
      exact ⟨hdone, rfl⟩
  | _ =>
    refine (hasAction_congr (actions_perform (by simp) (by simp))).trans ?_
    simp

/-- The actions of a new database are those that its history has recorded and not retracted since.
By induction from the end of the history, since a request works on what all requests before it have
left. -/
theorem hasAction_storeAfter_iff (medium : Medium) (watcher : Watcher) (history : History) :
    (storeAfter medium watcher history).HasAction id action ↔
      Stands (Session.start medium watcher) history id action := by
  induction history using List.reverseRecOn with
  | nil =>
    constructor
    · rintro ⟨row, hrow, -⟩
      cases Table.get?_empty.symm.trans hrow
    · rintro ⟨place, hrecorded, -⟩
      cases hrecorded.place_lt
  | append_singleton history entry ih =>
    obtain ⟨now, given⟩ := entry
    rw [stands_append_iff, ← ih, storeAfter, carryOut_append]
    exact hasAction_perform_iff rfl

end Session

end Deliberation
