import Deliberation.Attempt

/-!
How computations succeed and how they fail. A success is taken apart into the successes of its
parts, so that no proof about a write unfolds a sequence of steps. On the other side stands
`Attempt.Harmless`: a failure leaves the state as it was. What only looks at the state is harmless,
what is atomic is harmless, and a harmless computation stays so behind looks at the state and in
front of computations that cannot fail. What a computation fails with is what one of its parts fails
with.
-/

namespace Deliberation

/-- A sequence yields a value exactly if both of its parts do. -/
theorem except_bind_eq_ok_iff {ε α β : Type} {x : Except ε α} {next : α → Except ε β} {b : β} :
    (x >>= next) = .ok b ↔ ∃ a, x = .ok a ∧ next a = .ok b := by
  cases x with
  | error e => simp [bind, Except.bind]
  | ok a => simp [bind, Except.bind]

theorem except_pure_eq_ok_iff {ε α : Type} {a b : α} :
    (pure a : Except ε α) = .ok b ↔ a = b := by
  simp [pure, Except.pure]

/-- Going through a list succeeds if each step succeeds. -/
theorem exists_mapM {ε α β : Type} {f : α → Except ε β} {xs : List α}
    (h : ∀ x ∈ xs, ∃ y, f x = .ok y) : ∃ ys, xs.mapM f = .ok ys := by
  induction xs with
  | nil => exact ⟨[], rfl⟩
  | cons x rest ih =>
    obtain ⟨y, hy⟩ := h x List.mem_cons_self
    obtain ⟨ys, hys⟩ := ih fun other hother => h other (List.mem_cons_of_mem x hother)
    refine ⟨y :: ys, ?_⟩
    simp [hy, hys, bind, Except.bind, pure, Except.pure]

/-- Whatever a result fails with is of some kind. -/
def FailsOnly {α : Type} (kind : Error → Prop) (x : Except Error α) : Prop :=
  ∀ e, x = .error e → kind e

namespace FailsOnly

variable {kind : Error → Prop} {α β : Type}

theorem ok (a : α) : FailsOnly kind (.ok a) := by
  intro e h
  cases h

theorem bind {x : Except Error α} {next : α → Except Error β} (h : FailsOnly kind x)
    (hnext : ∀ a, FailsOnly kind (next a)) : FailsOnly kind (x >>= next) := by
  cases x with
  | error cause =>
    intro e he
    cases he
    exact h cause rfl
  | ok a => exact hnext a

end FailsOnly

namespace Attempt

variable {σ α β : Type}

theorem pure_eq_ok_iff {a b : α} {s t : σ} :
    (pure a : Attempt σ α) s = (.ok b, t) ↔ a = b ∧ s = t := by
  show yield a s = (.ok b, t) ↔ _
  simp [yield]

/-- A sequence succeeds exactly if both of its parts do, the second one in the state that the first
one has left. -/
theorem bind_eq_ok_iff {x : Attempt σ α} {next : α → Attempt σ β} {s t : σ} {b : β} :
    (x >>= next) s = (.ok b, t) ↔ ∃ a u, x s = (.ok a, u) ∧ next a u = (.ok b, t) := by
  constructor
  · exact ok_of_andThen
  · rintro ⟨a, u, hx, hnext⟩
    show x.andThen next s = (.ok b, t)
    simp only [andThen, hx]
    exact hnext

theorem bind_of_ok {x : Attempt σ α} {next : α → Attempt σ β} {s t : σ} {a : α}
    (h : x s = (.ok a, t)) : (x >>= next) s = next a t := by
  change x.andThen next s = next a t
  simp only [andThen, h]

theorem bind_of_error {x : Attempt σ α} {next : α → Attempt σ β} {s t : σ} {e : Error}
    (h : x s = (.error e, t)) : (x >>= next) s = (.error e, t) := by
  change x.andThen next s = (.error e, t)
  simp only [andThen, h]

/-- A computation whose result is only told in another form leaves the state as it does itself. -/
theorem bind_pure_eq_ok_iff {x : Attempt σ α} {told : α → β} {s t : σ} {b : β} :
    (x >>= fun a => pure (told a)) s = (.ok b, t) ↔ ∃ a, x s = (.ok a, t) ∧ told a = b := by
  rw [bind_eq_ok_iff]
  constructor
  · rintro ⟨a, u, hx, hpure⟩
    obtain ⟨hb, rfl⟩ := pure_eq_ok_iff.mp hpure
    exact ⟨a, hx, hb⟩
  · rintro ⟨a, hx, hb⟩
    exact ⟨a, t, hx, pure_eq_ok_iff.mpr ⟨hb, rfl⟩⟩

theorem read_eq_ok_iff {look : σ → Except Error α} {s t : σ} {a : α} :
    read look s = (.ok a, t) ↔ look s = .ok a ∧ s = t := by
  simp [read]

theorem ofExcept_eq_ok_iff {x : Except Error α} {s t : σ} {a : α} :
    (ofExcept x : Attempt σ α) s = (.ok a, t) ↔ x = .ok a ∧ s = t := by
  simp [ofExcept]

theorem modify_eq_ok_iff {change : σ → σ} {s t : σ} {u : Unit} :
    modify change s = (.ok u, t) ↔ change s = t := by
  simp [modify]

theorem state_eq_ok_iff {s t u : σ} : state s = (.ok u, t) ↔ s = u ∧ s = t := by
  simp [state]

theorem fail_ne_ok {e : Error} {s t : σ} {a : α} : (fail e : Attempt σ α) s ≠ (.ok a, t) := by
  simp [fail]

theorem atomic_eq_ok_iff {x : Attempt σ α} {s t : σ} {a : α} :
    x.atomic s = (.ok a, t) ↔ x s = (.ok a, t) := by
  unfold atomic
  split
  · rename_i b u hx
    simp [hx]
  · rename_i e u hx
    simp [hx]

theorem mapError_eq_ok_iff {change : Error → Error} {x : Attempt σ α} {s t : σ} {a : α} :
    mapError change x s = (.ok a, t) ↔ x s = (.ok a, t) := by
  unfold mapError
  split
  · rename_i b u hx
    simp [hx]
  · rename_i e u hx
    simp [hx]

/-- A failure of the computation leaves the state as it was. -/
def Harmless (x : Attempt σ α) : Prop :=
  ∀ ⦃s t : σ⦄ ⦃e : Error⦄, x s = (.error e, t) → t = s

def Certain (x : Attempt σ α) : Prop :=
  ∀ s t e, x s ≠ (.error e, t)

theorem certain_pure (a : α) : (pure a : Attempt σ α).Certain := by
  intro s t e h
  cases h

theorem Certain.exists_ok {x : Attempt σ α} (h : x.Certain) (s : σ) : ∃ a t, x s = (.ok a, t) := by
  rcases hx : x s with ⟨e | a, t⟩
  · exact absurd hx (h s t e)
  · exact ⟨a, t, rfl⟩

theorem harmless_fail (e : Error) : (fail e : Attempt σ α).Harmless := by
  intro s t _ h
  cases h
  rfl

theorem harmless_pure (a : α) : (pure a : Attempt σ α).Harmless :=
  fun s t e h => absurd h (certain_pure a s t e)

theorem harmless_atomic (x : Attempt σ α) : x.atomic.Harmless :=
  fun _ _ _ h => atomic_of_error h

theorem Harmless.mapError {x : Attempt σ α} (hx : x.Harmless) (change : Error → Error) :
    (x.mapError change).Harmless := by
  intro s t e h
  unfold Attempt.mapError at h
  split at h
  · cases h
  · rename_i cause u hfail
    cases h
    exact hx hfail

/-- A failure of a sequence is a failure of its first part, or one of the second part after the
first. -/
theorem error_of_bind {x : Attempt σ α} {next : α → Attempt σ β} {s t : σ} {e : Error}
    (h : (x >>= next) s = (.error e, t)) :
    x s = (.error e, t) ∨ ∃ a u, x s = (.ok a, u) ∧ next a u = (.error e, t) := by
  change x.andThen next s = (.error e, t) at h
  unfold andThen at h
  split at h
  · rename_i a u hx
    exact Or.inr ⟨a, u, hx, h⟩
  · rename_i cause u hx
    cases h
    exact Or.inl hx

theorem Harmless.read_bind {look : σ → Except Error α} {next : α → Attempt σ β}
    (hnext : ∀ a, (next a).Harmless) : (read look >>= next).Harmless := by
  intro s t e h
  rcases error_of_bind h with hlook | ⟨a, u, hlook, hfail⟩
  · exact (congrArg Prod.snd hlook).symm
  · obtain ⟨-, rfl⟩ := read_eq_ok_iff.mp hlook
    exact hnext a hfail

/-- What may fail only before it has touched the state leaves no trace of its failures. -/
theorem Harmless.bind_certain {x : Attempt σ α} {next : α → Attempt σ β} (hx : x.Harmless)
    (hnext : ∀ a, (next a).Certain) : (x >>= next).Harmless := by
  intro s t e h
  rcases error_of_bind h with hfail | ⟨a, u, -, hfail⟩
  · exact hx hfail
  · exact absurd hfail (hnext a u t e)

/-- Whatever the computation fails with is of some kind. -/
def FailsOnly (kind : Error → Prop) (x : Attempt σ α) : Prop :=
  ∀ s, Deliberation.FailsOnly kind (x s).1

theorem failsOnly_pure (kind : Error → Prop) (a : α) : (pure a : Attempt σ α).FailsOnly kind :=
  fun _ => .ok a

theorem failsOnly_bind {kind : Error → Prop} {x : Attempt σ α} {next : α → Attempt σ β} {s : σ}
    (h : Deliberation.FailsOnly kind (x s).1)
    (hnext : ∀ a t, x s = (.ok a, t) → Deliberation.FailsOnly kind (next a t).1) :
    Deliberation.FailsOnly kind ((x >>= next) s).1 := by
  change Deliberation.FailsOnly kind (x.andThen next s).1
  unfold andThen
  rcases hx : x s with ⟨e | a, t⟩
  · rw [hx] at h
    intro cause hcause
    cases hcause
    exact h e rfl
  · exact hnext a t hx

theorem FailsOnly.bind {kind : Error → Prop} {x : Attempt σ α} {next : α → Attempt σ β}
    (h : x.FailsOnly kind) (hnext : ∀ a, (next a).FailsOnly kind) : (x >>= next).FailsOnly kind :=
  fun s => failsOnly_bind (h s) fun a t _ => hnext a t

/-- A computation keeps a property of states, whether it succeeds or fails. -/
def Keeps (P : σ → Prop) (x : Attempt σ α) : Prop := ∀ s, P s → P (x s).2

theorem keeps_pure (P : σ → Prop) (a : α) : (pure a : Attempt σ α).Keeps P := fun _ h => h

theorem Keeps.bind {P : σ → Prop} {x : Attempt σ α} {next : α → Attempt σ β} (h : x.Keeps P)
    (hnext : ∀ a, (next a).Keeps P) : (x >>= next).Keeps P := by
  intro s hs
  have ht := h s hs
  change P (x.andThen next s).2
  unfold andThen
  rcases hx : x s with ⟨e | a, t⟩
  · rw [hx] at ht
    exact ht
  · rw [hx] at ht
    exact hnext a t ht

end Attempt

end Deliberation
