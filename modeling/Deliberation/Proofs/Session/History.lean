import Deliberation.Proofs.Session.Rollback
import Deliberation.Proofs.Store.Request

/-!
Histories: requests carried out one after another, each at an instant of its own. A request that
fails counts too; it leaves the store alone, so what every successful request keeps holds after any
history.
-/

namespace Deliberation

/-- Requests with the instants at which they are carried out. -/
abbrev History := List (Timestamp × Request)

namespace Session

/-- The session after a history. Nothing stops at a request that fails. -/
def carryOut : History → Session → Session
  | [], session => session
  | (now, request) :: rest, session => carryOut rest (perform now request session).2

/-- A history can be cut in two. -/
theorem carryOut_append (before after : History) (session : Session) :
    carryOut (before ++ after) session = carryOut after (carryOut before session) := by
  induction before generalizing session with
  | nil => rfl
  | cons entry rest ih => exact ih _

theorem carryOut_concat {history : History} {now : Timestamp} {request : Request}
    {session between after : Session} {result : Except Error request.Reply}
    (hbetween : carryOut history session = between)
    (hafter : perform now request between = (result, after)) :
    carryOut (history ++ [(now, request)]) session = after := by
  rw [carryOut_append, hbetween, carryOut, hafter, carryOut]

/-- The store of a new database after a history. -/
def storeAfter (medium : Medium) (watcher : Watcher) (history : History) : Store :=
  (carryOut history (start medium watcher)).store

/-- The store of a session after a request is the one that the request has left. -/
theorem store_perform (now : Timestamp) (request : Request) (session : Session) :
    (perform now request session).2.store = (request.perform now session.store).2 := by
  unfold perform
  split
  · rename_i hperform
    rw [hperform]
    rfl
  · rename_i hperform
    rw [hperform]
    rfl

theorem exists_after_of_ok {now : Timestamp} {request : Request} {reply : request.Reply}
    {session : Session} (h : (perform now request session).1 = .ok reply) :
    ∃ after, perform now request session = (.ok reply, after) :=
  ⟨(perform now request session).2, Prod.ext h rfl⟩

theorem exists_after_of_ok_and {now : Timestamp} {request : Request} {reply : request.Reply}
    {session : Session} {P : Session → Prop}
    (h : (perform now request session).1 = .ok reply ∧ P (perform now request session).2) :
    ∃ after, perform now request session = (.ok reply, after) ∧ P after :=
  ⟨(perform now request session).2, Prod.ext h.1 rfl, h.2⟩

/-- A request has its effect, or it fails and leaves the store alone. -/
theorem perform_cases (now : Timestamp) (request : Request) (session : Session) :
    (∃ receipt, (perform now request session).1 = .ok receipt.reply ∧
      request.Effect now session.store receipt (perform now request session).2.store) ∨
    ∃ e, (perform now request session).1 = .error e ∧
      (perform now request session).2.store = session.store := by
  rw [store_perform]
  rcases hperform : request.perform now session.store with ⟨answer, after⟩
  cases answer with
  | ok receipt =>
    exact Or.inl ⟨receipt, by simp [perform, hperform], Request.effect_of_perform hperform⟩
  | error e => exact Or.inr ⟨e, by simp [perform, hperform], request.harmless_perform now hperform⟩

/-- What every successful request keeps, every request keeps. -/
theorem perform_keeps {P : Store → Prop} {now : Timestamp} {request : Request}
    (hkeeps : ∀ {store after receipt}, request.Effect now store receipt after → P store → P after)
    {session : Session} (hsession : P session.store) :
    P (perform now request session).2.store := by
  rcases perform_cases now request session with ⟨receipt, -, heffect⟩ | ⟨e, -, hsame⟩
  · exact hkeeps heffect hsession
  · rw [hsame]
    exact hsession

/-- What every granted request keeps holds after every history, since refused requests change no
row. -/
theorem carryOut_keeps {P : Store → Prop}
    (hkeeps : ∀ {now} {request : Request} {store after receipt},
      request.Effect now store receipt after → P store → P after)
    (history : History) {session : Session} (hsession : P session.store) :
    P (carryOut history session).store := by
  induction history generalizing session with
  | nil => exact hsession
  | cons entry rest ih => exact ih (perform_keeps hkeeps hsession)

/-- What holds of a store without rows, and is kept by every successful request, holds after any
history. -/
theorem storeAfter_of_kept {P : Store → Prop} (hempty : P {})
    (hkeeps : ∀ {now} {request : Request} {store after receipt},
      request.Effect now store receipt after → P store → P after)
    (medium : Medium) (watcher : Watcher) (history : History) :
    P (storeAfter medium watcher history) :=
  carryOut_keeps hkeeps history (show P (start medium watcher).store from hempty)

end Session

end Deliberation
