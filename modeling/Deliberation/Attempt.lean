import Deliberation.Error

/-!
Computations that work on a state and may fail. A failure keeps the state that was reached, so that
undoing is a step of its own; `Attempt.atomic` takes it.
-/

namespace Deliberation

/-- A computation on a state `σ` that yields an `α` or fails. -/
def Attempt (σ α : Type) := σ → Except Error α × σ

namespace Attempt

variable {σ α β : Type}

def yield (a : α) : Attempt σ α := fun s => (.ok a, s)

/-- One computation after another; the second is not run if the first fails. -/
def andThen (x : Attempt σ α) (next : α → Attempt σ β) : Attempt σ β := fun s =>
  match x s with
  | (.ok a, t) => next a t
  | (.error e, t) => (.error e, t)

instance : Monad (Attempt σ) where
  pure := yield
  bind := andThen

def fail (e : Error) : Attempt σ α := fun s => (.error e, s)

def ofExcept (x : Except Error α) : Attempt σ α := fun s => (x, s)

def read (look : σ → Except Error α) : Attempt σ α := fun s => (look s, s)

def state : Attempt σ σ := fun s => (.ok s, s)

def put (s : σ) : Attempt σ Unit := fun _ => (.ok (), s)

def modify (change : σ → σ) : Attempt σ Unit := fun s => (.ok (), change s)

/-- Runs a computation, and takes back all it did to the state if it fails. -/
def atomic (x : Attempt σ α) : Attempt σ α := fun s =>
  match x s with
  | (.ok a, t) => (.ok a, t)
  | (.error e, _) => (.error e, s)

/-- An atomic computation that fails changes nothing. -/
theorem atomic_of_error {x : Attempt σ α} {s t : σ} {e : Error} (h : x.atomic s = (.error e, t)) :
    t = s := by
  unfold atomic at h
  split at h
  · cases h
  · cases h
    rfl

/-- A sequence succeeds only if its first part does. -/
theorem ok_of_andThen {x : Attempt σ α} {next : α → Attempt σ β} {s t : σ} {b : β}
    (h : (x >>= next) s = (.ok b, t)) : ∃ a u, x s = (.ok a, u) ∧ next a u = (.ok b, t) := by
  change x.andThen next s = (.ok b, t) at h
  unfold andThen at h
  split at h
  · rename_i a u hx
    exact ⟨a, u, hx, h⟩
  · cases h

def mapError (change : Error → Error) (x : Attempt σ α) : Attempt σ α := fun s =>
  match x s with
  | (.ok a, t) => (.ok a, t)
  | (.error e, t) => (.error (change e), t)

end Attempt

end Deliberation
