/-!
Readers of characters. A reader takes a value off the front of a text or refuses it, and never
leaves more of the text than there was; repetition therefore ends.
-/

namespace Deliberation

abbrev Rest (cs : List Char) := { rest : List Char // rest.length ≤ cs.length }

def Reader (α : Type) := (cs : List Char) → Option (α × Rest cs)

namespace Reader

variable {α β : Type}

def yield (a : α) : Reader α := fun cs => some (a, ⟨cs, Nat.le_refl _⟩)

/-- One reader after another; the second may depend on what the first has read. -/
def andThen (p : Reader α) (next : α → Reader β) : Reader β := fun cs =>
  (p cs).bind fun (a, rest) =>
    (next a rest.1).map fun (b, last) => (b, ⟨last.1, Nat.le_trans last.2 rest.2⟩)

instance : Monad Reader where
  pure := yield
  bind := andThen

def refuse : Reader α := fun _ => none

def ofOption : Option α → Reader α
  | some a => yield a
  | none => refuse

def either (p q : Reader α) : Reader α := fun cs => (p cs).orElse fun _ => q cs

def maybe (p : Reader α) : Reader (Option α) := either (some <$> p) (yield none)

/-- Whether the text is at its end; takes nothing. -/
def atEnd : Reader Bool := fun cs => some (cs.isEmpty, ⟨cs, Nat.le_refl _⟩)

def peek (n : Nat) : Reader (List Char) := fun cs => some (cs.take n, ⟨cs, Nat.le_refl _⟩)

def satisfying (p : Char → Bool) : Reader Char
  | [] => none
  | c :: cs => if p c then some (c, ⟨cs, Nat.le_succ _⟩) else none

def char (c : Char) : Reader Unit := (fun _ => ()) <$> satisfying (· == c)

def word : List Char → Reader Unit
  | [] => yield ()
  | c :: rest => do
    char c
    word rest

/-- The longest run of characters with property `p`, which may be empty. -/
def run (p : Char → Bool) : Reader (List Char) := fun cs =>
  some (cs.takeWhile p, ⟨cs.dropWhile p, (List.dropWhile_sublist p).length_le⟩)

/-- As many values as there are, one after another. A value that takes nothing ends the row. -/
def many (p : Reader α) : Reader (List α) := fun cs =>
  match p cs with
  | none => some ([], ⟨cs, Nat.le_refl _⟩)
  | some (a, rest) =>
    if _shorter : rest.1.length < cs.length then
      (many p rest.1).map fun (more, last) => (a :: more, ⟨last.1, Nat.le_trans last.2 rest.2⟩)
    else some ([], ⟨cs, Nat.le_refl _⟩)
termination_by cs => cs.length

def readAll? (p : Reader α) (cs : List Char) : Option α :=
  match p cs with
  | some (a, ⟨[], _⟩) => some a
  | _ => none

end Reader

end Deliberation
