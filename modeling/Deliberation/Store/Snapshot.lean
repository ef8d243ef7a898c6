import Deliberation.Attempt

/-!
Snapshots: reads that see one state of a store. A provider runs a callback in a snapshot. It has to
do so exactly once; one that does not is found out.
-/

namespace Deliberation.Snapshot

inductive Progress (α : Type) where
  | waiting
  | ran (value : Option α)

/-- The callback that is handed to a provider. It runs `read` when it is called first, and fails
when it is called again. -/
def callback {α : Type} (read : Except Error α) : Attempt (Progress α) Unit := fun progress =>
  match progress, read with
  | .ran _, _ => (.error (.concurrency .reentered), progress)
  | .waiting, .ok value => (.ok (), .ran (some value))
  | .waiting, .error e => (.error e, .ran none)

def take {α : Type} (provider : Attempt (Progress α) Unit → Attempt (Progress α) Unit)
    (read : Except Error α) : Except Error α :=
  match provider (callback read) .waiting with
  | (.error e, _) => .error e
  | (.ok (), .ran (some value)) => .ok value
  | (.ok (), _) => .error (.concurrency .neverRan)

/-- The provider that calls its callback a number of times and stops at the first failure. -/
def repeating {σ : Type} (times : Nat) (call : Attempt σ Unit) : Attempt σ Unit :=
  match times with
  | 0 => return
  | times + 1 => do
    call
    repeating times call

end Deliberation.Snapshot
