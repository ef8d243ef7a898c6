import Deliberation.Model.Place
import Mathlib.Algebra.Order.Group.Nat
import Mathlib.Order.Monotone.Basic

/-!
The total order of places against the order of the numbers that they denote. The two differ on
zeros, and what is no finite number has a place as well. Stored orders of links are neither negative
zeros nor infinite, so that sorting them by their bits and sorting them as numbers is the same.
-/

namespace Deliberation.Place

open Binary64

/-- The size of the number without a sign whose bits, read as one number, are `bits`. It is told in
units of the least positive number, two to the power -1074. -/
def magnitude (bits : Nat) : Nat :=
  if bits / exponentUnit = 0 then bits
  else (exponentUnit + bits % exponentUnit) * 2 ^ (bits / exponentUnit - 1)

/-- The number that a place denotes, in units of the least positive one. The greatest exponent is
read like any other: infinite places lie beyond all finite ones, and those that are not a number
beyond the infinite ones. -/
def units (place : Place) : Int :=
  let bits := place.bits.toNat
  if isNegative place.bits then -magnitude (bits - signUnit) else magnitude bits

/-- The total order of places: by their numbers, and the negative zero before the positive one. -/
def Precedes (a b : Place) : Prop := a.units < b.units ∨ a = negativeZero ∧ b = zero

/-- A place that can be stored: finite, and no zero with a sign. -/
def IsStorable (place : Place) : Prop := place.nonFinite? = none ∧ place ≠ negativeZero

/-- A finite place can be stored once its zero has lost the sign. -/
theorem isStorable_stored {place : Place} (h : place.nonFinite? = none) :
    place.stored.IsStorable := by
  unfold stored
  split
  · exact ⟨by decide, by decide⟩
  · rename_i hother
    exact ⟨h, hother⟩

/-- Magnitudes grow with their bits: the greatest fraction of one exponent is followed by the
least one of the next. -/
theorem magnitude_lt_succ (bits : Nat) : magnitude bits < magnitude (bits + 1) := by
  have hunit : 0 < exponentUnit := by decide
  unfold magnitude
  by_cases hcarry : bits % exponentUnit + 1 < exponentUnit
  · have hexponent : (bits + 1) / exponentUnit = bits / exponentUnit := by
      rw [Nat.add_div hunit, Nat.mod_eq_of_lt (show 1 < exponentUnit by decide)]
      simp only [Nat.div_eq_of_lt (show 1 < exponentUnit by decide), Nat.add_zero,
        if_neg (Nat.not_le.mpr hcarry)]
    have hfraction : (bits + 1) % exponentUnit = bits % exponentUnit + 1 := by
      rw [Nat.add_mod, Nat.mod_eq_of_lt (show 1 < exponentUnit by decide), Nat.mod_eq_of_lt hcarry]
    rw [hexponent, hfraction]
    split
    · exact Nat.lt_succ_self bits
    · exact Nat.mul_lt_mul_of_pos_right (by omega) (Nat.two_pow_pos _)
  · have hfull : bits % exponentUnit + 1 = exponentUnit := by
      have hless := Nat.mod_lt bits hunit
      omega
    have hsplit := Nat.div_add_mod bits exponentUnit
    have hnext : bits + 1 = exponentUnit * (bits / exponentUnit + 1) := by
      rw [Nat.mul_add, Nat.mul_one]
      omega
    have hexponent : (bits + 1) / exponentUnit = bits / exponentUnit + 1 := by
      rw [hnext, Nat.mul_div_cancel_left _ hunit]
    have hfraction : (bits + 1) % exponentUnit = 0 := by
      rw [hnext, Nat.mul_mod_right]
    rw [hexponent, hfraction, if_neg (Nat.succ_ne_zero _), Nat.add_sub_cancel, Nat.add_zero]
    split
    · rename_i hzero
      rw [hzero] at hnext ⊢
      omega
    · rename_i hnonzero
      obtain ⟨exponent, hexponent⟩ := Nat.exists_eq_succ_of_ne_zero hnonzero
      rw [hexponent, Nat.succ_sub_one, Nat.pow_succ, Nat.mul_comm _ 2, ← Nat.mul_assoc]
      exact Nat.mul_lt_mul_of_pos_right (by omega) (Nat.two_pow_pos _)

theorem magnitude_strictMono : StrictMono magnitude := strictMono_nat_of_lt_succ magnitude_lt_succ

theorem magnitude_zero : magnitude 0 = 0 := rfl

theorem magnitude_eq_zero_iff (bits : Nat) : magnitude bits = 0 ↔ bits = 0 := by
  rw [← magnitude_zero, magnitude_strictMono.injective.eq_iff, magnitude_zero]

theorem toNat_bits_inj {a b : Place} : a.bits.toNat = b.bits.toNat ↔ a = b := by
  cases a
  cases b
  rw [mk.injEq, UInt64.toNat_inj]

/-- No two places have one rank in the total order. -/
theorem rank_inj {a b : Place} : a.rank = b.rank ↔ a = b := by
  have ha := a.bits.toNat_lt
  have hb := b.bits.toNat_lt
  have hunit : signUnit = 2 ^ 63 := rfl
  rw [← toNat_bits_inj]
  unfold rank isNegative
  by_cases hna : signUnit ≤ a.bits.toNat <;> by_cases hnb : signUnit ≤ b.bits.toNat <;>
    simp only [hna, hnb, decide_true, decide_false, if_true, Bool.false_eq_true, if_false] <;> omega

/-- The order of ranks is the total order of floating numbers. -/
theorem rank_lt_rank_iff_precedes {a b : Place} : a.rank < b.rank ↔ a.Precedes b := by
  unfold Precedes
  have hminus : negativeZero.bits.toNat = signUnit := by decide
  have hplus : zero.bits.toNat = 0 := by decide
  have hpositive : 0 < signUnit := by decide
  rw [← toNat_bits_inj, ← toNat_bits_inj, hminus, hplus]
  unfold rank units isNegative
  by_cases hna : signUnit ≤ a.bits.toNat <;> by_cases hnb : signUnit ≤ b.bits.toNat <;>
    simp only [hna, hnb, decide_true, decide_false, if_true, Bool.false_eq_true, if_false]
  · have hless := magnitude_strictMono.lt_iff_lt (a := b.bits.toNat - signUnit)
      (b := a.bits.toNat - signUnit)
    omega
  · have hzero := magnitude_eq_zero_iff (a.bits.toNat - signUnit)
    have hother := magnitude_eq_zero_iff b.bits.toNat
    omega
  · omega
  · have hless := magnitude_strictMono.lt_iff_lt (a := a.bits.toNat) (b := b.bits.toNat)
    omega

/-- Among places that can be stored, the total order is the order of the numbers. -/
theorem rank_lt_rank_iff {a b : Place} (ha : a.IsStorable) :
    a.rank < b.rank ↔ a.units < b.units := by
  rw [rank_lt_rank_iff_precedes, Precedes, or_iff_left fun hzeros => ha.2 hzeros.1]

/-! ## Equal places go by number -/

variable {a b c : Place} {l m n : Id}

/-- Places are compared by rank, and equal ones by the ids that go with them. -/
theorem isBefore_iff : a.isBefore m b n ↔ a.rank < b.rank ∨ a.rank = b.rank ∧ m ≤ n := by
  unfold isBefore
  split
  · rename_i hsame
    simp [hsame]
  · rename_i hother
    simp only [decide_eq_true_eq, hother, false_and, or_false]
    omega

theorem isBefore_trans (hab : a.isBefore l b m) (hbc : b.isBefore m c n) : a.isBefore l c n := by
  rw [isBefore_iff] at *
  unfold Id at *
  omega

/-- Of two places with ids, one may always stand before the other. -/
theorem isBefore_total (a b : Place) (m n : Id) :
    (a.isBefore m b n || b.isBefore n a m) = true := by
  rw [Bool.or_eq_true, isBefore_iff, isBefore_iff]
  unfold Id at *
  omega

/-- Only the same place with the same id may stand on both sides. -/
theorem isBefore_antisymm (hab : a.isBefore m b n) (hba : b.isBefore n a m) : a = b ∧ m = n := by
  rw [isBefore_iff] at *
  rw [← rank_inj]
  unfold Id at *
  omega

end Deliberation.Place
