import Deliberation.Binary64
import Mathlib

/-!
Arithmetic of the floating numbers that are not negative. A sum of positive numbers is positive,
however it is rounded; a zero, of either sign, adds nothing; and the positive numbers are in a total
order, infinity being the greatest. The numbers are taken apart into sign, mantissa and exponent, as
the model of their arithmetic does.

That bits are packed into what they were unpacked from (`UnpackedFloat.pack_unpack_of_valid`) is
known in Batteries, in a file that no part of Mathlib imports but the whole.
-/

namespace Deliberation.Binary64

open Float.Model

variable {x y : Float} {u v : UnpackedFloat} {m : Nat} {e : Int}

theorem lt_iff : x < y ↔ UnpackedFloat.compare x.toModel.unpack y.toModel.unpack = some .lt := by
  change Float.lt x y = true ↔ _
  rw [Float.lt, decide_eq_true_eq]
  change UnpackedFloat.lt x.toModel.unpack y.toModel.unpack = true ↔ _
  rw [UnpackedFloat.lt, beq_iff_eq]

theorem le_iff :
    x ≤ y ↔ (UnpackedFloat.compare x.toModel.unpack y.toModel.unpack).any (·.isLE) := by
  change Float.le x y = true ↔ _
  rw [Float.le, decide_eq_true_eq]
  rfl

/-- Numbers with the same parts are the same. -/
theorem unpack_injective (h : x.toModel.unpack = y.toModel.unpack) : x = y :=
  Float.toBits_inj.mp (UInt64.toBitVec_inj.mp
    ((UnpackedFloat.unpack_inj_of_valid x.toModel.valid y.toModel.valid).mp h))

/-- A sum is known once its parts are those of a number. -/
theorem add_eq_of_parts {z : Float}
    (h : UnpackedFloat.add Format.binary64 x.toModel.unpack y.toModel.unpack = z.toModel.unpack) :
    x + y = z := by
  refine Float.toBits_inj.mp (UInt64.toBitVec_inj.mp ?_)
  change UnpackedFloat.pack Format.binary64 (UnpackedFloat.add Format.binary64 _ _) =
    z.toModel.toBits.toBitVec
  rw [h]
  exact UnpackedFloat.pack_unpack_of_valid z.toModel.valid

theorem unpack_zero : (0 : Float).toModel.unpack = .zero .positive := rfl

theorem exponentBias_eq : Format.binary64.exponentBias = 1023 := by decide

theorem targetExponent_eq (m : Nat) (e : Int) :
    Format.binary64.targetExponent (totalExponent m e) = max ((m.log2 : Int) + 1 + e - 53)
      (-1074) :=
  rfl

/-! ## Positive numbers -/

inductive IsPositive : UnpackedFloat → Prop
  | infinity : IsPositive (.infinity .positive)
  | finite {mantissa : Nat} {exponent : Int} (hpos : 0 < mantissa) (hfits : mantissa < 2 ^ 53)
      (hleast : -1074 ≤ exponent) : IsPositive (.finite .positive mantissa exponent hpos)

theorem fits_of_unpack {bits : BitVec Format.binary64.numBits} {sign : UnpackedFloat.Sign}
    {hpos : 0 < m} (h : UnpackedFloat.unpack Format.binary64 bits = .finite sign m e hpos) :
    m < 2 ^ 53 ∧ -1074 ≤ e := by
  have hfraction : (UnpackedFloat.unpackMantissa bits).toNat < 2 ^ 52 :=
    (UnpackedFloat.unpackMantissa bits).isLt
  have hwhole : (1#1 ++ UnpackedFloat.unpackMantissa bits).toNat < 2 ^ 53 :=
    (1#1 ++ UnpackedFloat.unpackMantissa bits).isLt
  unfold UnpackedFloat.unpack at h
  simp only [exponentBias_eq] at h
  split at h
  · split at h <;> cases h
  · split at h
    · split at h
      · cases h
      · rename_i hzero _
        injection h with _ hm he
        subst hm he
        rw [hzero]
        exact ⟨by omega, by decide⟩
    · rename_i hnonzero
      injection h with _ hm he
      subst hm he
      have hpositive : 0 < (UnpackedFloat.unpackExponent bits).toNat :=
        Nat.pos_of_ne_zero fun hzero => hnonzero (BitVec.eq_of_toNat_eq hzero)
      exact ⟨hwhole, by omega⟩

theorem IsPositive.compare_zero (h : IsPositive u) :
    UnpackedFloat.compare (.zero .positive) u = some .lt := by
  cases h with
  | infinity => rfl
  | finite => rfl

/-- A number is positive exactly if its parts are. -/
theorem pos_iff : 0 < x ↔ IsPositive x.toModel.unpack := by
  rw [lt_iff, unpack_zero]
  constructor
  · intro hlt
    rcases hparts : x.toModel.unpack with (_ | _) | _ | (_ | _) |
      ⟨_ | _, mantissa, exponent, hpos⟩ <;>
      rw [hparts] at hlt
    case infinity.positive => exact .infinity
    case finite.positive =>
      obtain ⟨hfits, hleast⟩ := fits_of_unpack hparts
      exact .finite hpos hfits hleast
    all_goals cases hlt
  · exact fun h => h.compare_zero

def IsZero (x : Float) : Prop := ∃ sign, x.toModel.unpack = .zero sign

def IsNonneg (x : Float) : Prop := IsZero x ∨ 0 < x

/-- A finite number that is not below zero is a zero or positive. -/
theorem isNonneg_of_not_lt (hfinite : x.isFinite) (hsign : ¬ x < 0) : IsNonneg x := by
  change x.toModel.unpack.isFinite at hfinite
  rw [lt_iff, unpack_zero] at hsign
  rw [IsNonneg, pos_iff]
  rcases hparts : x.toModel.unpack with _ | _ | sign | ⟨_ | _, mantissa, exponent, hpos⟩
  case zero => exact Or.inl ⟨sign, hparts⟩
  case finite.positive =>
    obtain ⟨hfits, hleast⟩ := fits_of_unpack hparts
    exact Or.inr (.finite hpos hfits hleast)
  case finite.negative =>
    rw [hparts] at hsign
    exact absurd rfl hsign
  all_goals
    rw [hparts] at hfinite
    cases hfinite

theorem IsZero.not_pos (h : IsZero x) : ¬ 0 < x := by
  obtain ⟨sign, hsign⟩ := h
  rw [pos_iff, hsign]
  rintro ⟨⟩

theorem IsZero.le_zero (h : IsZero x) : x ≤ 0 := by
  obtain ⟨sign, hsign⟩ := h
  rw [le_iff, hsign, unpack_zero]
  cases sign <;> rfl

theorem not_le_zero_of_pos (h : 0 < x) : ¬ x ≤ 0 := by
  have hparts := pos_iff.mp h
  rw [le_iff, unpack_zero]
  generalize x.toModel.unpack = u at hparts
  cases hparts with
  | infinity => decide
  | finite => exact Bool.false_ne_true

/-! ## Sums -/

theorem mantissa_shiftRight (em : UnpackedFloat.ExtendedMantissa) (n : Nat) :
    (em >>> n).mantissa = em.mantissa / 2 ^ n := by
  change (n.repeat UnpackedFloat.ExtendedMantissa.shiftRightOne em).mantissa = _
  induction n with
  | zero => simp [Nat.repeat]
  | succ n ih =>
    rw [Nat.repeat, UnpackedFloat.ExtendedMantissa.shiftRightOne, ih, Nat.div_div_eq_div_mul,
      Nat.pow_succ]

theorem mantissa_ofMantissaAndAccuracy (mantissa : Nat) (accuracy : UnpackedFloat.Accuracy) :
    (UnpackedFloat.ExtendedMantissa.ofMantissaAndAccuracy mantissa accuracy).mantissa =
      mantissa := by
  rcases accuracy with _ | (_ | _ | _) <;> rfl

/-- Shifting a mantissa to where it fits leaves its leading digit. -/
theorem shiftToTargetExponent_fits (hpos : 0 < m) (hleast : -1074 ≤ e)
    (accuracy : UnpackedFloat.Accuracy) :
    let shifted := UnpackedFloat.shiftToTargetExponent Format.binary64 m e accuracy
    0 < shifted.1.mantissa ∧ shifted.1.mantissa < 2 ^ 53 ∧ -1074 ≤ shifted.2 := by
  simp only [UnpackedFloat.shiftToTargetExponent, UnpackedFloat.shiftToExponent,
    mantissa_shiftRight, mantissa_ofMantissaAndAccuracy, targetExponent_eq]
  generalize hshift : (max ((m.log2 : Int) + 1 + e - 53) (-1074) - e).toNat = shift
  have hlow : 2 ^ shift ≤ m :=
    (Nat.pow_le_pow_right (by decide) (by omega)).trans (Nat.log2_self_le hpos.ne')
  have hhigh : m < 2 ^ (53 + shift) :=
    Nat.lt_log2_self.trans_le (Nat.pow_le_pow_right (by decide) (by omega))
  refine ⟨Nat.div_pos hlow (Nat.two_pow_pos shift), ?_, by omega⟩
  rw [Nat.div_lt_iff_lt_mul (Nat.two_pow_pos shift), ← Nat.pow_add]
  exact hhigh

/-- Rounding does not lower a mantissa below what is left of it. -/
theorem le_roundedMantissa (em : UnpackedFloat.ExtendedMantissa) :
    em.mantissa ≤ em.roundedMantissa := by
  obtain ⟨mantissa, roundBit, stickyBit⟩ := em
  cases roundBit <;> cases stickyBit <;>
    simp [UnpackedFloat.ExtendedMantissa.roundedMantissa, UnpackedFloat.ExtendedMantissa.accuracy,
      UnpackedFloat.Accuracy.roundToNearestEven]

/-- Rounding keeps a positive number positive, if its exponent is not below the least one. Rounding
up can take one more digit, and then the mantissa is shifted a second time. -/
theorem isPositive_roundWithAccuracy (hpos : 0 < m) (hleast : -1074 ≤ e)
    (accuracy : UnpackedFloat.Accuracy) :
    IsPositive (UnpackedFloat.roundWithAccuracy Format.binary64 .positive m e accuracy) := by
  obtain ⟨hfirst, -, hfirstLeast⟩ := shiftToTargetExponent_fits hpos hleast accuracy
  obtain ⟨hlast, hlastFits, hlastLeast⟩ :=
    shiftToTargetExponent_fits (hfirst.trans_le (le_roundedMantissa _)) hfirstLeast .exact
  unfold UnpackedFloat.roundWithAccuracy
  simp only
  rw [dif_neg hlast.ne']
  exact .finite _ hlastFits hlastLeast

theorem isPositive_round (hpos : 0 < m) (hleast : -1074 ≤ e) :
    IsPositive (UnpackedFloat.round Format.binary64 .positive m e) := by
  unfold UnpackedFloat.round UnpackedFloat.decreaseExponent
  rw [targetExponent_eq]
  refine isPositive_roundWithAccuracy ?_ (by omega) .exact
  rw [Nat.shiftLeft_eq]
  exact Nat.mul_pos hpos (Nat.two_pow_pos _)

/-- Sums of positive numbers are positive. -/
theorem isPositive_add (hu : IsPositive u) (hv : IsPositive v) :
    IsPositive (UnpackedFloat.add Format.binary64 u v) := by
  cases hu with
  | infinity =>
    cases hv with
    | infinity => exact .infinity
    | finite => exact .infinity
  | @finite m₁ e₁ hpos₁ _ hleast₁ =>
    cases hv with
    | infinity => exact .infinity
    | @finite m₂ e₂ hpos₂ _ hleast₂ =>
      have hfirst : 0 < m₁ <<< (e₁ - min e₁ e₂).toNat := by
        rw [Nat.shiftLeft_eq]
        exact Nat.mul_pos hpos₁ (Nat.two_pow_pos _)
      unfold UnpackedFloat.add UnpackedFloat.decreaseExponent UnpackedFloat.normalize
      simp only [UnpackedFloat.Sign.apply]
      generalize m₁ <<< (e₁ - min e₁ e₂).toNat = first at hfirst ⊢
      generalize m₂ <<< (e₂ - min e₁ e₂).toNat = second
      rw [Int.compare_eq_gt.mpr (by omega)]
      exact isPositive_round (by omega) (by omega)

theorem ofNat_ne_ofNat {width n k : Nat} (hn : n < 2 ^ width) (hk : k < 2 ^ width) (h : n ≠ k) :
    BitVec.ofNat width n ≠ BitVec.ofNat width k := by
  intro hsame
  have hvalue := congrArg BitVec.toNat hsame
  rw [BitVec.toNat_ofNat, BitVec.toNat_ofNat, Nat.mod_eq_of_lt hn, Nat.mod_eq_of_lt hk] at hvalue
  exact h hvalue

theorem unpack_packedInfinity : UnpackedFloat.unpack Format.binary64
    (UnpackedFloat.packedInfinity Format.binary64 .positive) = .infinity .positive := by
  simp [UnpackedFloat.unpack, UnpackedFloat.packedInfinity]

/-- Components that are neither those of a zero nor those of an infinity or a NaN are read as a
positive number. -/
theorem isPositive_unpack_packComponents {exponent : BitVec 11} {fraction : BitVec 52}
    (hfinite : exponent ≠ -1#11) (hnonzero : exponent ≠ 0#11 ∨ fraction ≠ 0#52) :
    IsPositive (UnpackedFloat.unpack Format.binary64
      (UnpackedFloat.packComponents Format.binary64 .positive exponent fraction)) := by
  have hfraction := fraction.isLt
  have hwhole : (1#1 ++ fraction).toNat < 2 ^ 53 := (1#1 ++ fraction).isLt
  unfold UnpackedFloat.unpack
  simp only [UnpackedFloat.unpackExponent_packComponents,
    UnpackedFloat.unpackMantissa_packComponents, UnpackedFloat.unpackSign_packComponents,
    UnpackedFloat.Sign.ofBitVec_toBitVec, exponentBias_eq]
  rw [if_neg hfinite]
  by_cases hexponent : exponent = 0#11
  · rw [if_pos hexponent, dif_neg (hnonzero.resolve_left fun hne => hne hexponent)]
    refine .finite _ (by omega) ?_
    rw [hexponent]
    decide
  · rw [if_neg hexponent]
    have hpositive : 0 < exponent.toNat :=
      Nat.pos_of_ne_zero fun hzero => hexponent (BitVec.eq_of_toNat_eq hzero)
    exact .finite _ hwhole (by omega)

/-- What is packed of a positive number is positive: it may become infinity, but no zero. -/
theorem isPositive_unpack_pack (h : IsPositive u) :
    IsPositive (UnpackedFloat.unpack Format.binary64 (UnpackedFloat.pack Format.binary64 u)) := by
  cases h with
  | infinity =>
    rw [UnpackedFloat.pack, unpack_packedInfinity]
    exact .infinity
  | @finite mantissa exponent hpos hfits hleast =>
    unfold UnpackedFloat.pack
    simp only [exponentBias_eq]
    split
    · rw [unpack_packedInfinity]
      exact .infinity
    · split
      · exact isPositive_unpack_packComponents
          (ofNat_ne_ofNat (k := 2047) (by omega) (by decide) (by omega))
          (Or.inl (ofNat_ne_ofNat (by omega) (by decide) (by omega)))
      · rename_i hlog
        have hlow : mantissa < 2 ^ 52 := by
          have hle := (Nat.log2_lt hpos.ne').mpr hfits
          have hne : mantissa.log2 + 1 ≠ 53 := hlog
          exact (Nat.log2_lt hpos.ne').mp (by omega)
        exact isPositive_unpack_packComponents (by decide)
          (Or.inr (ofNat_ne_ofNat hlow (by decide) hpos.ne'))

/-- A sum of positive numbers is positive. -/
theorem add_pos (hx : 0 < x) (hy : 0 < y) : 0 < x + y :=
  pos_iff.mpr (isPositive_unpack_pack (isPositive_add (pos_iff.mp hx) (pos_iff.mp hy)))

theorem add_of_isZero (hx : 0 < x) (hy : IsZero y) : x + y = x := by
  obtain ⟨sign, hsign⟩ := hy
  have hparts := pos_iff.mp hx
  refine add_eq_of_parts ?_
  rw [hsign]
  generalize x.toModel.unpack = u at hparts
  cases hparts with
  | infinity => rfl
  | finite => rfl

theorem zero_add_of_pos (hy : 0 < y) : 0 + y = y := by
  have hparts := pos_iff.mp hy
  refine add_eq_of_parts ?_
  rw [unpack_zero]
  generalize y.toModel.unpack = v at hparts
  cases hparts with
  | infinity => rfl
  | finite => rfl

theorem zero_add_of_isZero (hy : IsZero y) : 0 + y = 0 := by
  obtain ⟨sign, hsign⟩ := hy
  refine add_eq_of_parts ?_
  rw [unpack_zero, hsign]
  cases sign <;> rfl

/-! ## The order of the positive numbers -/

/-- The place of a positive number in parts among the positive numbers. -/
def partsRank : UnpackedFloat → WithTop (Int ×ₗ Nat)
  | .finite _ mantissa exponent _ => (toLex (exponent, mantissa) : Int ×ₗ Nat)
  | _ => ⊤

/-- The place of a positive number among the positive numbers. -/
def rank (x : Float) : WithTop (Int ×ₗ Nat) := partsRank x.toModel.unpack

theorem compare_eq_lt_iff (hu : IsPositive u) (hv : IsPositive v) :
    UnpackedFloat.compare u v = some .lt ↔ partsRank u < partsRank v := by
  cases hu with
  | infinity =>
    cases hv with
    | infinity => exact iff_of_false (by decide) (lt_irrefl _)
    | finite => simp [UnpackedFloat.compare, partsRank]
  | finite =>
    cases hv with
    | infinity => simp [UnpackedFloat.compare, partsRank, WithTop.coe_lt_top]
    | finite =>
      simp only [UnpackedFloat.compare, partsRank, WithTop.coe_lt_coe, Prod.Lex.toLex_lt_toLex,
        Option.some.injEq, Ordering.then_eq_lt, compare_lt_iff_lt, compare_eq_iff_eq]

theorem eq_of_partsRank_eq (hu : IsPositive u) (hv : IsPositive v) (h : partsRank u = partsRank v) :
    u = v := by
  cases hu with
  | infinity =>
    cases hv with
    | infinity => rfl
    | finite => cases h
  | finite =>
    cases hv with
    | infinity => cases h
    | finite =>
      obtain ⟨rfl, rfl⟩ := Prod.mk.inj (toLex_inj.mp (WithTop.coe_inj.mp h))
      rfl

/-- Positive numbers are compared by their ranks. -/
theorem lt_iff_rank_lt (hx : 0 < x) (hy : 0 < y) : x < y ↔ rank x < rank y := by
  rw [lt_iff]
  exact compare_eq_lt_iff (pos_iff.mp hx) (pos_iff.mp hy)

theorem rank_inj (hx : 0 < x) (hy : 0 < y) : rank x = rank y ↔ x = y :=
  ⟨fun h => unpack_injective (eq_of_partsRank_eq (pos_iff.mp hx) (pos_iff.mp hy) h), congrArg rank⟩

/-! ## Bits of no number -/

/-- The exponent of the bits is the one that the parts are read from. -/
theorem toNat_unpackExponent (bits : BitVec Format.binary64.numBits) :
    (UnpackedFloat.unpackExponent bits).toNat = bits.toNat / exponentUnit % exponentCount := by
  rw [UnpackedFloat.unpackExponent, BitVec.toNat_cast, BitVec.extractLsb, BitVec.extractLsb'_toNat,
    Nat.shiftRight_eq_div_pow]
  rfl

/-- The fraction of the bits is the one that the parts are read from. -/
theorem toNat_unpackMantissa (bits : BitVec Format.binary64.numBits) :
    (UnpackedFloat.unpackMantissa bits).toNat = bits.toNat % exponentUnit := by
  rw [UnpackedFloat.unpackMantissa, BitVec.toNat_cast, BitVec.extractLsb, BitVec.extractLsb'_toNat,
    Nat.shiftRight_zero]
  rfl

theorem unpack_eq_notANumber {bits : BitVec Format.binary64.numBits}
    (hexponent : bits.toNat / exponentUnit % exponentCount + 1 = exponentCount)
    (hfraction : bits.toNat % exponentUnit ≠ 0) :
    UnpackedFloat.unpack Format.binary64 bits = .notANumber := by
  have hgreatest : UnpackedFloat.unpackExponent bits = -1#11 := by
    refine BitVec.eq_of_toNat_eq ?_
    rw [toNat_unpackExponent]
    exact Nat.succ.inj hexponent
  have hsome : UnpackedFloat.unpackMantissa bits ≠ 0#52 := by
    intro hzero
    have hvalue := congrArg BitVec.toNat hzero
    rw [toNat_unpackMantissa] at hvalue
    exact hfraction hvalue
  simp only [UnpackedFloat.unpack]
  rw [if_pos hgreatest, if_neg hsome]

/-- A positive number has other bits than what is no number. -/
theorem isNumber_of_pos (hx : 0 < x) (hexponent : exponent x.toBits + 1 = exponentCount) :
    fraction x.toBits = 0 := by
  by_contra hfraction
  have hparts : x.toModel.unpack = .notANumber := unpack_eq_notANumber hexponent hfraction
  have hpositive := pos_iff.mp hx
  rw [hparts] at hpositive
  cases hpositive

end Deliberation.Binary64
