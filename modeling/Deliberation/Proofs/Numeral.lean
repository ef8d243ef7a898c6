import Deliberation.Numeral

/-!
Texts of numbers. What a number is written as, in any base up to sixteen, is read as that number
again, whatever the case of its letters and however many zeros stand in front.
-/

namespace Deliberation.Numeral

theorem digitOf?_digitChar {base d : Nat} (hbase : base ≤ 16) (h : d < base) :
    digitOf? base (Nat.digitChar d) = some d := by
  have hvalue : ∀ d < 16, digit? (Nat.digitChar d) = some d := by decide
  rw [digitOf?, hvalue d (Nat.lt_of_lt_of_le h hbase), Option.filter_some,
    if_pos (by simpa using h)]

/-- A numeral is read from left to right: what stands behind continues the number in front. -/
theorem continue?_append (base high : Nat) (cs more : List Char) :
    continue? base high (cs ++ more) =
      (continue? base high cs).bind fun n => continue? base n more := by
  induction cs generalizing high with
  | nil => rfl
  | cons c cs ih =>
    rw [List.cons_append, continue?, continue?, Option.bind_assoc]
    exact congrArg _ (funext fun d => ih (high * base + d))

/-- A numeral is read as the number that it was written for. -/
theorem continue?_toDigits {base : Nat} (hbase : 1 < base) (hsmall : base ≤ 16) (n : Nat) :
    continue? base 0 (Nat.toDigits base n) = some n := by
  induction n using Nat.strongRecOn with
  | ind n ih =>
    by_cases hdigit : n < base
    · rw [Nat.toDigits_of_lt_base hdigit, continue?, digitOf?_digitChar hsmall hdigit, Nat.zero_mul]
      simp only [Option.bind_some, Nat.zero_add, continue?]
    · have hle : base ≤ n := Nat.not_lt.mp hdigit
      have hless : n / base < n := Nat.div_lt_self (by omega) hbase
      rw [Nat.toDigits_of_base_le hbase hle, continue?_append, ih (n / base) hless,
        Option.bind_some, continue?, digitOf?_digitChar hsmall (Nat.mod_lt n (by omega)),
        Option.bind_some, continue?, Nat.div_add_mod']

theorem nat?_of_ne_nil {base : Nat} {cs : List Char} (h : cs ≠ []) :
    nat? base cs = continue? base 0 cs := by
  cases cs with
  | nil => exact absurd rfl h
  | cons c cs => rfl

theorem isDigit_of_mem_toDigits {n : Nat} {c : Char} (h : c ∈ Nat.toDigits 10 n) : c.isDigit :=
  Nat.isDigit_of_mem_toDigits (by decide) (by decide) h

theorem nat?_toDigits (n : Nat) : nat? 10 (Nat.toDigits 10 n) = some n := by
  rw [nat?_of_ne_nil Nat.toDigits_ne_nil, continue?_toDigits (by decide) (by decide)]

/-- Digits without a sign in front are read as a natural number. -/
theorem int?_of_digits {cs : List Char} (h : ∀ c ∈ cs, c.isDigit) :
    int? cs = (nat? 10 cs).map Int.ofNat := by
  unfold int?
  split
  · exact absurd (h '-' List.mem_cons_self) (by decide)
  · exact absurd (h '+' List.mem_cons_self) (by decide)
  · rfl

/-- Characters write a number in some base: its digits, with letters in either case, and zeros in
front. -/
def Writes (base n : Nat) (cs : List Char) : Prop :=
  ∃ zeros, cs.map Char.toLower = List.replicate zeros '0' ++ Nat.toDigits base n

theorem digit?_toLower (c : Char) : digit? c.toLower = digit? c := by
  by_cases hupper : c.val ≥ 'A'.val ∧ c.val ≤ 'Z'.val
  · have hletters : ∀ n < 91, 65 ≤ n → digit? (Char.ofNat n).toLower = digit? (Char.ofNat n) := by
      decide
    rw [← Char.ofNat_toNat c]
    exact hletters c.toNat (Nat.lt_succ_of_le hupper.2) hupper.1
  · unfold Char.toLower
    rw [dif_neg hupper]

theorem continue?_map_toLower (base high : Nat) (cs : List Char) :
    continue? base high (cs.map Char.toLower) = continue? base high cs := by
  induction cs generalizing high with
  | nil => rfl
  | cons c cs ih =>
    rw [List.map_cons, continue?, continue?, digitOf?, digit?_toLower, ← digitOf?]
    exact congrArg _ (funext fun d => ih (high * base + d))

theorem continue?_zeros {base : Nat} (hbase : 1 < base) (zeros : Nat) :
    continue? base 0 (List.replicate zeros '0') = some 0 := by
  have hzero : digitOf? base '0' = some 0 := by
    rw [digitOf?, show digit? '0' = some 0 from rfl, Option.filter_some,
      if_pos (by simpa using Nat.lt_of_succ_lt hbase)]
  induction zeros with
  | zero => rfl
  | succ zeros ih =>
    rw [List.replicate_succ, continue?, hzero, Option.bind_some, Nat.zero_mul, Nat.add_zero, ih]

/-- What writes a number is read as that number. -/
theorem nat?_of_writes {base n : Nat} {cs : List Char} (hbase : 1 < base) (hsmall : base ≤ 16)
    (h : Writes base n cs) : nat? base cs = some n := by
  obtain ⟨zeros, hlower⟩ := h
  have hsome : cs ≠ [] := by
    rintro rfl
    exact Nat.toDigits_ne_nil (List.append_eq_nil_iff.mp hlower.symm).2
  rw [nat?_of_ne_nil hsome, ← continue?_map_toLower, hlower, continue?_append,
    continue?_zeros hbase, Option.bind_some, continue?_toDigits hbase hsmall]

theorem isAlphanum_of_digit? {c : Char} (h : (digit? c).isSome) : c.isAlphanum := by
  unfold digit? at h
  split at h
  · rename_i hdecimal
    have hdigit : c.isDigit :=
      Bool.and_eq_true_iff.mpr ⟨decide_eq_true hdecimal.1, decide_eq_true hdecimal.2⟩
    exact Bool.or_eq_true_iff.mpr (Or.inr hdigit)
  · split at h
    · rename_i hsmall
      have hlower : c.isLower := Bool.and_eq_true_iff.mpr
        ⟨decide_eq_true hsmall.1, decide_eq_true (Char.le_trans hsmall.2 (by decide : 'f' ≤ 'z'))⟩
      exact Bool.or_eq_true_iff.mpr (Or.inl (Bool.or_eq_true_iff.mpr (Or.inr hlower)))
    · split at h
      · rename_i hlarge
        have hupper : c.isUpper :=
          decide_eq_true ⟨hlarge.1, Char.le_trans hlarge.2 (by decide : 'F' ≤ 'Z')⟩
        exact Bool.or_eq_true_iff.mpr (Or.inl (Bool.or_eq_true_iff.mpr (Or.inl hupper)))
      · cases h

theorem isSome_digit?_of_continue? {base high n : Nat} {cs : List Char}
    (h : continue? base high cs = some n) {c : Char} (hc : c ∈ cs) : (digit? c).isSome := by
  induction cs generalizing high with
  | nil => cases hc
  | cons d cs ih =>
    obtain ⟨value, hvalue, hrest⟩ := Option.bind_eq_some_iff.mp h
    rcases List.mem_cons.mp hc with rfl | hc
    · exact Option.isSome_of_eq_some (Option.filter_eq_some_iff.mp hvalue).1
    · exact ih hrest hc

/-- A numeral is made of digits. -/
theorem isSome_digit?_of_nat? {base n : Nat} {cs : List Char} (h : nat? base cs = some n)
    {c : Char} (hc : c ∈ cs) : (digit? c).isSome :=
  isSome_digit?_of_continue? ((nat?_of_ne_nil (List.ne_nil_of_mem hc)).symm.trans h) hc

end Deliberation.Numeral
