-- When doubles are finite. Operations on finite doubles have a result that is finite or infinite,
-- but never one that is no number; a change of the sign, an absolute value and a square root stay
-- finite. An integer has a finite double exactly if it lies below the point half way from the
-- largest double to the next power of two.
import EnergyGraph.Proofs.Nearest
import EnergyGraph.Proofs.Doubles
import Mathlib.Data.Nat.Sqrt

namespace EnergyGraph.Decimal

open Float.Model (Format UnpackedFloat totalExponent)
open Float.Model.UnpackedFloat

/-! ## Packed results -/

/-- A result that is finite or infinite, before it is packed. -/
def Defined (u : UnpackedFloat) : Prop := u ≠ .notANumber

/-- A result within the exponents of finite doubles, before it is packed. -/
inductive InRange : UnpackedFloat → Prop
  | zero {s} : InRange (.zero s)
  | finite {s m e hm} (h : e ≤ 971) : InRange (.finite s m e hm)

section

variable (s : Sign) (e : BitVec 11) (m : BitVec 52)

theorem isFinite_packComponents (he : e ≠ -1#_) :
    (unpack Format.binary64 (packComponents Format.binary64 s e m)).isFinite = true := by
  have hexponent : unpackExponent (packComponents Format.binary64 s e m) = e :=
    unpackExponent_packComponents
  rw [(unpacks _).isFinite_iff, hexponent]
  exact fun h => he (BitVec.eq_of_toNat_eq h)

theorem isNaN_packedInfinity :
    (unpack Format.binary64 (packedInfinity Format.binary64 s)).isNaN = false := by
  have hmantissa : unpackMantissa (packedInfinity Format.binary64 s) = 0#52 :=
    unpackMantissa_packComponents
  rw [Bool.eq_false_iff, ne_eq, (unpacks _).isNaN_iff, hmantissa]
  exact fun h => h.2 rfl

end

/-- The stored exponent of a packed result is not that of infinity, unless it is too large. -/
theorem ofNat_ne_ones {n : Nat} (h : ¬ 2 ^ 11 ≤ n + 1) : BitVec.ofNat 11 n ≠ -1#_ := by
  intro heq
  have hnat := congrArg BitVec.toNat heq
  rw [BitVec.toNat_ofNat] at hnat
  have hones : (-1#11).toNat = 2047 := rfl
  omega

theorem isFinite_pack {u : UnpackedFloat} (h : InRange u) :
    (unpack Format.binary64 (pack Format.binary64 u)).isFinite = true := by
  cases h with
  | zero => exact isFinite_packComponents _ _ _ (by decide)
  | @finite s m e hm he =>
    unfold pack
    dsimp only
    split
    · rename_i hlarge
      change 2 ^ 11 ≤ (e + (1023 : Nat) + (52 : Nat)).toNat + 1 at hlarge
      omega
    · rename_i hsmall
      split
      · exact isFinite_packComponents _ _ _ (ofNat_ne_ones hsmall)
      · exact isFinite_packComponents _ _ _ (by decide)

theorem isNaN_pack {u : UnpackedFloat} (h : Defined u) :
    (unpack Format.binary64 (pack Format.binary64 u)).isNaN = false := by
  match u with
  | .notANumber => exact absurd rfl h
  | .infinity s => exact isNaN_packedInfinity s
  | .zero s => exact isNaN_of_isFinite_unpacked (isFinite_pack .zero)
  | .finite s m e hm =>
    unfold pack
    dsimp only
    split
    · exact isNaN_packedInfinity s
    · rename_i hsmall
      split
      · exact isNaN_of_isFinite_unpacked (isFinite_packComponents _ _ _ (ofNat_ne_ones hsmall))
      · exact isNaN_of_isFinite_unpacked (isFinite_packComponents _ _ _ (by decide))

/-- What is not finite is not when it is packed. -/
theorem not_isFinite_pack {u : UnpackedFloat} (h : u.isFinite = false) :
    (unpack Format.binary64 (pack Format.binary64 u)).isFinite = false := by
  cases u with
  | notANumber => rfl
  | infinity s => cases s <;> rfl
  | zero s => cases h
  | finite s m e hm => cases h

/-- A number that is not infinite is finite. -/
theorem isFinite_of_not_isInf {x : Float} (hnan : x.isNaN = false) (hinf : x.isInf = false) :
    x.isFinite = true := by
  change x.toModel.unpack.isNaN = false at hnan
  change x.toModel.unpack.isInf = false at hinf
  change x.toModel.unpack.isFinite = true
  cases hx : x.toModel.unpack with
  | notANumber =>
    rw [hx] at hnan
    cases hnan
  | infinity s =>
    rw [hx] at hinf
    cases hinf
  | zero s => rfl
  | finite s m e hm => rfl

theorem not_isFinite_of_isInf {x : Float} (h : x.isInf = true) : x.isFinite = false := by
  rw [← Bool.not_eq_true]
  intro hfinite
  rw [isInf_of_isFinite hfinite] at h
  cases h

/-! ## Finite operands -/

/-- The parts of a finite double. -/
inductive Small : UnpackedFloat → Prop
  | zero {s} : Small (.zero s)
  | finite {s m e hm} (hdigits : m < 2 ^ 53) (hleast : -1074 ≤ e) (hgreatest : e ≤ 971) :
    Small (.finite s m e hm)

theorem small_unpack {x : Float} (h : x.isFinite = true) : Small x.toModel.unpack := by
  have hstored := storedExponent_lt x.toBits
  have hfraction := storedFraction_lt x.toBits
  have hfinite := isFinite_iff.mp h
  have hunpacks := unpacks_bits x.toBits
  change Small (unpack Format.binary64 x.toBits.toBitVec)
  generalize unpack Format.binary64 x.toBits.toBitVec = u at hunpacks ⊢
  cases hunpacks with
  | infinity he => exact absurd he hfinite
  | notANumber he => exact absurd he hfinite
  | zero => exact .zero
  | subnormal => exact .finite (by omega) (by decide) (by decide)
  | normal => exact .finite (by omega) (by omega) (by omega)

/-! ## Operations -/

/-- Rounding gives zero, or has the exponent that the rounded digits are shifted to. -/
theorem roundWithAccuracy_cases (s : Sign) (m : Nat) (e : Int) (a : Accuracy) :
    roundWithAccuracy Format.binary64 s m e a = .zero s ∨
      ∃ n hn, roundWithAccuracy Format.binary64 s m e a = .finite s n
        (shiftToTargetExponent Format.binary64
          (shiftToTargetExponent Format.binary64 m e a).1.roundedMantissa
          (shiftToTargetExponent Format.binary64 m e a).2 .exact).2 hn := by
  unfold roundWithAccuracy
  by_cases hzero : (shiftToTargetExponent Format.binary64
      (shiftToTargetExponent Format.binary64 m e a).1.roundedMantissa
      (shiftToTargetExponent Format.binary64 m e a).2 .exact).1.mantissa = 0
  · exact Or.inl (dif_pos hzero)
  · exact Or.inr ⟨_, Nat.pos_of_ne_zero hzero, dif_neg hzero⟩

theorem defined_roundWithAccuracy (s : Sign) (m : Nat) (e : Int) (a : Accuracy) :
    Defined (roundWithAccuracy Format.binary64 s m e a) := by
  unfold Defined
  rcases roundWithAccuracy_cases s m e a with h | ⟨n, hn, h⟩
  · rw [h]
    exact nofun
  · rw [h]
    exact nofun

theorem defined_normalize (m : Int) (e : Int) (s : Sign) :
    Defined (UnpackedFloat.normalize Format.binary64 m e s) := by
  unfold UnpackedFloat.normalize
  split
  · exact defined_roundWithAccuracy _ _ _ _
  · exact nofun
  · exact defined_roundWithAccuracy _ _ _ _

namespace Small

variable {u v : UnpackedFloat}

theorem neg (hu : Small u) : InRange u.neg := by
  cases hu with
  | zero => exact .zero
  | finite _ _ he => exact .finite he

theorem add (hu : Small u) (hv : Small v) : Defined (add Format.binary64 u v) := by
  cases hu with
  | zero =>
    cases hv with
    | zero =>
      unfold Float.Model.UnpackedFloat.add Defined
      dsimp only
      split <;> exact nofun
    | finite => exact nofun
  | finite =>
    cases hv with
    | zero => exact nofun
    | finite => exact defined_normalize _ _ _

theorem sub (hu : Small u) (hv : Small v) : Defined (sub Format.binary64 u v) := by
  cases hu with
  | zero =>
    cases hv with
    | zero =>
      unfold Float.Model.UnpackedFloat.sub Defined
      dsimp only
      split <;> exact nofun
    | finite => exact nofun
  | finite =>
    cases hv with
    | zero => exact nofun
    | finite => exact defined_normalize _ _ _

theorem mul (hu : Small u) (hv : Small v) : Defined (mul Format.binary64 u v) := by
  cases hu with
  | zero => cases hv <;> exact nofun
  | finite =>
    cases hv with
    | zero => exact nofun
    | finite => exact defined_roundWithAccuracy _ _ _ _

theorem div (hu : Small u) (hv : Small v) (hzero : v.compare (.zero .positive) ≠ some .eq) :
    Defined (div Format.binary64 u v) := by
  cases hv with
  | zero => exact absurd rfl hzero
  | finite =>
    cases hu with
    | zero => exact nofun
    | finite => exact defined_roundWithAccuracy _ _ _ _

end Small

section

variable {u : UnpackedFloat} (v : UnpackedFloat) (h : u.isFinite = false)

include h

theorem not_isFinite_add : (add Format.binary64 u v).isFinite = false := by
  cases u with
  | notANumber => cases v <;> rfl
  | infinity s =>
    cases v with
    | infinity t => cases s <;> cases t <;> rfl
    | notANumber | zero | finite => rfl
  | zero | finite => cases h

theorem not_isFinite_mul : (mul Format.binary64 u v).isFinite = false := by
  cases u with
  | notANumber => cases v <;> rfl
  | infinity s => cases v <;> rfl
  | zero | finite => cases h

end

/-! ## Square roots -/

/-- Shifting leaves no more digits than there were. -/
theorem shifted_le (m : ExtendedMantissa) (k : Nat) : (m >>> k).mantissa ≤ m.mantissa := by
  induction k with
  | zero => exact le_rfl
  | succ k ih =>
    change (m >>> k).mantissa / 2 ≤ m.mantissa
    omega

theorem roundedMantissa_le (m : ExtendedMantissa) : m.roundedMantissa ≤ m.mantissa + 1 := by
  unfold ExtendedMantissa.roundedMantissa
  rcases m.accuracy with _ | _ | _ | _ <;> unfold Accuracy.roundToNearestEven <;> dsimp only <;>
    omega

theorem ofMantissaAndAccuracy_mantissa (m : Nat) (a : Accuracy) :
    (ExtendedMantissa.ofMantissaAndAccuracy m a).mantissa = m := by
  rcases a with _ | _ | _ | _ <;> rfl

theorem targetExponent_eq (t : Int) : Format.binary64.targetExponent t = max (t - 53) (-1074) := rfl

/-- What a shift to the exponent of the format does to the exponent. -/
theorem shiftToTargetExponent_le {m k : Nat} {e : Int} (a : Accuracy) (hm : m < 2 ^ (k + 1))
    (hleast : -1074 ≤ e) :
    (shiftToTargetExponent Format.binary64 m e a).1.mantissa ≤ m ∧
      (shiftToTargetExponent Format.binary64 m e a).2 ≤ e + k ∧
        e ≤ (shiftToTargetExponent Format.binary64 m e a).2 := by
  have hlog : m.log2 ≤ k := by
    rcases Nat.eq_zero_or_pos m with rfl | hpos
    · exact Nat.zero_le k
    · exact Nat.lt_succ_iff.mp ((Nat.log2_lt hpos.ne').mpr hm)
  unfold shiftToTargetExponent shiftToExponent
  dsimp only
  refine ⟨?_, ?_, by omega⟩
  · exact (shifted_le _ _).trans (ofMantissaAndAccuracy_mantissa m a).le
  · rw [targetExponent_eq]
    unfold totalExponent
    omega

/-- Rounding stays in range well below the end of it. -/
theorem inRange_roundWithAccuracy {s : Sign} {m k : Nat} {e : Int} {a : Accuracy}
    (hm : m < 2 ^ (k + 1)) (hleast : -1074 ≤ e) (he : e + 2 * k + 1 ≤ 971) :
    InRange (roundWithAccuracy Format.binary64 s m e a) := by
  obtain ⟨hdigits, hhigh, hlow⟩ := shiftToTargetExponent_le a hm hleast
  have hcases := roundWithAccuracy_cases s m e a
  generalize shiftToTargetExponent Format.binary64 m e a = first at hdigits hhigh hlow hcases
  have hrounded : first.1.roundedMantissa < 2 ^ (k + 1 + 1) := by
    have hle := roundedMantissa_le first.1
    rw [Nat.pow_succ]
    omega
  obtain ⟨-, hend, -⟩ := shiftToTargetExponent_le .exact hrounded (hleast.trans hlow)
  rcases hcases with h | ⟨n, hn, h⟩
  · rw [h]
    exact .zero
  · rw [h]
    exact .finite (by omega)

/-- The root of a number of 53 digits is taken of at most 160. -/
theorem sqrtCore_bounds {m : Nat} {e : Int} (hm : m < 2 ^ 53) (hleast : -1074 ≤ e) (he : e ≤ 971) :
    (sqrtCore Format.binary64 m e).1 < 2 ^ 160 ∧ -1074 ≤ (sqrtCore Format.binary64 m e).2.1 ∧
      (sqrtCore Format.binary64 m e).2.1 ≤ 485 := by
  unfold sqrtCore
  dsimp only
  rw [targetExponent_eq]
  unfold totalExponent
  have hhalf : e.ediv 2 = e / 2 := rfl
  have htotal : ((m.log2 : Int) + 1 + e + 1).ediv 2 = (m.log2 + 1 + e + 1) / 2 := rfl
  rw [hhalf, htotal]
  refine ⟨?_, by omega, by omega⟩
  have hshift : (e - 2 * min (e / 2) (max (((m.log2 : Int) + 1 + e + 1) / 2 - 53) (-1074))).toNat ≤
      107 := by omega
  calc Nat.sqrt (m <<< _) ≤ m <<< _ := Nat.sqrt_le_self _
    _ = m * 2 ^ _ := Nat.shiftLeft_eq _ _
    _ < 2 ^ 53 * 2 ^ 107 := Nat.mul_lt_mul_of_lt_of_le hm (Nat.pow_le_pow_right (by decide) hshift)
        (by decide)
    _ = 2 ^ 160 := by rw [← Nat.pow_add]

theorem Small.sqrt {u : UnpackedFloat} (hu : Small u)
    (h : u.compare (.zero .positive) ≠ some .lt) : InRange (sqrt Format.binary64 u) := by
  cases hu with
  | zero => exact .zero
  | @finite s m e hm hdigits hleast hgreatest =>
    cases s with
    | negative => exact absurd rfl h
    | positive =>
      obtain ⟨hroot, hlow, hhigh⟩ := sqrtCore_bounds hdigits hleast hgreatest
      have hend : (sqrtCore Format.binary64 m e).2.1 + 2 * (159 : Nat) + 1 ≤ 971 := by omega
      exact inRange_roundWithAccuracy hroot hlow hend

/-! ## Operations on finite doubles -/

section

variable {a b : Float} (ha : a.isFinite = true) (hb : b.isFinite = true)

include ha

theorem isFinite_neg : (-a).isFinite = true := isFinite_pack (small_unpack ha).neg

theorem isFinite_sqrt (h : ¬ a < 0.0) : a.sqrt.isFinite = true := by
  refine isFinite_pack ((small_unpack ha).sqrt fun hlt => h ?_)
  rw [float_lt_iff]
  exact hlt

include hb

theorem isNaN_add : (a + b).isNaN = false := isNaN_pack ((small_unpack ha).add (small_unpack hb))

theorem isNaN_sub : (a - b).isNaN = false := isNaN_pack ((small_unpack ha).sub (small_unpack hb))

theorem isNaN_mul : (a * b).isNaN = false := isNaN_pack ((small_unpack ha).mul (small_unpack hb))

theorem isNaN_div (h : (b == 0.0) = false) : (a / b).isNaN = false := by
  refine isNaN_pack ((small_unpack ha).div (small_unpack hb) fun hzero => ?_)
  rw [float_beq_iff.mpr hzero] at h
  cases h

end

/-- A sum is finite only if its first part is. -/
theorem isFinite_of_add {a b : Float} (h : (a + b).isFinite = true) : a.isFinite = true := by
  rw [← Bool.not_eq_false] at h ⊢
  exact fun ha => h (not_isFinite_pack (not_isFinite_add b.toModel.unpack ha))

theorem isFinite_of_mul {a b : Float} (h : (a * b).isFinite = true) : a.isFinite = true := by
  rw [← Bool.not_eq_false] at h ⊢
  exact fun ha => h (not_isFinite_pack (not_isFinite_mul b.toModel.unpack ha))

theorem isFinite_of_neg {a : Float} (h : (-a).isFinite = true) : a.isFinite = true := by
  rw [← Bool.not_eq_false] at h ⊢
  refine fun ha => h (not_isFinite_pack (u := a.toModel.unpack.neg) ?_)
  change a.toModel.unpack.isFinite = false at ha
  cases hu : a.toModel.unpack <;> rw [hu] at ha <;> first | rfl | cases ha

/-! ## Integers with a finite double -/

/-- A quotient is rounded up by at most one half. -/
theorem two_mul_roundedQuotient_le {a b : ℕ} (hb : 0 < b) :
    2 * roundedQuotient a b * b ≤ 2 * a + b := by
  have hdiv := Nat.div_add_mod a b
  have hmod := Nat.mod_lt a hb
  unfold roundedQuotient
  generalize a / b = q at *
  generalize a % b = r at *
  rcases hc : compare (2 * r) b with _ | _ | _
  · dsimp only
    nlinarith
  · rw [compare_eq_iff_eq] at hc
    dsimp only
    split <;> nlinarith
  · rw [compare_gt_iff_gt] at hc
    dsimp only
    nlinarith

theorem le_roundedQuotient {a b k : ℕ} (hb : 0 < b) (h : k * b ≤ a) : k ≤ roundedQuotient a b := by
  have hle : k ≤ a / b := (Nat.le_div_iff_mul_le hb).mpr h
  unfold roundedQuotient
  dsimp only
  split
  · exact hle
  · omega
  · split <;> omega

/-- Below the greatest exponent nothing is rounded out of range. -/
theorem IsExponent.lt_limit {r : ℚ} {e : ℤ} (he : IsExponent r e) (h : e < 971) :
    r < (2 ^ 53 - 1 / 2) * (2 : ℚ) ^ (971 : ℤ) :=
  calc r < 2 ^ 53 * (2 : ℚ) ^ e := he.high
    _ ≤ 2 ^ 53 * (2 : ℚ) ^ (970 : ℤ) := by
      gcongr
      · norm_num
      · omega
    _ = 2 ^ 52 * (2 : ℚ) ^ (971 : ℤ) := by
      rw [two_pow_mul_zpow, two_pow_mul_zpow]
      norm_num
    _ < (2 ^ 53 - 1 / 2) * (2 : ℚ) ^ (971 : ℤ) := by
      gcongr
      norm_num

/-- Above the greatest exponent everything is. -/
theorem IsExponent.limit_le {r : ℚ} {e : ℤ} (he : IsExponent r e) (h : 971 < e) :
    (2 ^ 53 - 1 / 2) * (2 : ℚ) ^ (971 : ℤ) ≤ r :=
  calc (2 ^ 53 - 1 / 2) * (2 : ℚ) ^ (971 : ℤ) ≤ 2 ^ 53 * (2 : ℚ) ^ (971 : ℤ) := by
        gcongr
        norm_num
    _ = 2 ^ 52 * (2 : ℚ) ^ (972 : ℤ) := by
      rw [two_pow_mul_zpow, two_pow_mul_zpow]
      norm_num
    _ ≤ 2 ^ 52 * (2 : ℚ) ^ e := by
      gcongr
      · norm_num
      · omega
    _ ≤ r := he.low.resolve_right (by omega)

section

variable {a b : ℕ} {e : ℤ} {r : ℚ} (hb : 0 < b) (hr : (a : ℚ) = r / (2 : ℚ) ^ e * b)

include hb hr

theorem scaled_lt {u : ℚ} : r < u * (2 : ℚ) ^ e ↔ (a : ℚ) < u * b := by
  have hpos : (0 : ℚ) < (2 : ℚ) ^ e := by positivity
  have hcast : (0 : ℚ) < b := by exact_mod_cast hb
  rw [hr, mul_lt_mul_iff_left₀ hcast, div_lt_iff₀ hpos]

/-- Above the least exponent a number is rounded to no fewer than 53 digits. -/
theorem full_of_isExponent (he : IsExponent r e) (h : e ≠ -1074) :
    2 ^ 52 ≤ roundedQuotient a b := by
  apply le_roundedQuotient hb
  have hle := not_lt.mpr (he.low.resolve_right h)
  rw [scaled_lt hb hr, not_lt] at hle
  exact_mod_cast hle

theorem roundedQuotient_le_of_isExponent (he : IsExponent r e) : roundedQuotient a b ≤ 2 ^ 53 := by
  have hround := two_mul_roundedQuotient_le (a := a) hb
  have hlt : a < 2 ^ 53 * b := by exact_mod_cast (scaled_lt hb hr).mp he.high
  by_contra hgt
  have hstep : (2 ^ 53 + 1) * b ≤ roundedQuotient a b * b := Nat.mul_le_mul_right b (by omega)
  nlinarith

/-- Half a step below the end of the range, and above, numbers are rounded to its end. -/
theorem roundedQuotient_eq_iff (he : IsExponent r e) :
    roundedQuotient a b = 2 ^ 53 ↔ (2 ^ 53 - 1 / 2) * (2 : ℚ) ^ e ≤ r := by
  constructor
  · intro heq
    have hround := two_mul_roundedQuotient_le (a := a) hb
    rw [heq] at hround
    have hcast : (2 * 2 ^ 53 * b : ℚ) ≤ 2 * a + b := by exact_mod_cast hround
    rw [← not_lt, scaled_lt hb hr]
    linarith
  · exact fun hcarried => roundedQuotient_carried hb hr hcarried he.high

/-- The bits of a rounded number are those of a finite double exactly below the end of the range. -/
theorem bitsOf_lt_iff (he : IsExponent r e) : bitsOf (roundedQuotient a b) e < infinityBits ↔
    r < (2 ^ 53 - 1 / 2) * (2 : ℚ) ^ (971 : ℤ) := by
  have hinfinity : infinityBits = 2047 * 2 ^ 52 := rfl
  have htop := roundedQuotient_le_of_isExponent hb hr he
  rw [bitsOf_eq, hinfinity]
  rcases lt_trichotomy e 971 with hlt | rfl | hgt
  · exact iff_of_true (by split <;> omega) (he.lt_limit hlt)
  · have hlow := full_of_isExponent hb hr he (by decide)
    rw [if_neg (by omega), ← not_iff_not, not_lt, not_lt, ← roundedQuotient_eq_iff hb hr he]
    omega
  · have hlow := full_of_isExponent hb hr he (by omega)
    refine iff_of_false ?_ (not_lt.mpr (he.limit_le hgt))
    rw [if_neg (by omega)]
    omega

end

theorem isFinite_ofBits {n : ℕ} :
    (Float.ofBits (min n infinityBits).toUInt64).isFinite = true ↔ n < infinityBits := by
  rcases Nat.lt_or_ge n infinityBits with h | h
  · have hlt : n < 2 ^ 64 := h.trans (by decide)
    have hinfinity : infinityBits = 0x7FF * 2 ^ 52 := rfl
    have hbits : n.toUInt64.toNat = n := UInt64.toNat_ofNat_of_lt' hlt
    refine iff_of_true ?_ h
    rw [Nat.min_eq_left h.le, isFinite_iff, toBits_ofBits (hbits.trans_lt h)]
    unfold storedExponent
    omega
  · refine iff_of_false ?_ (Nat.not_lt.mpr h)
    rw [Nat.min_eq_right h]
    decide

theorem isFinite_nearestRatio {n d : ℕ} (hn : n ≠ 0) (hd : d ≠ 0) :
    (nearestRatio n d).isFinite = true ↔
      (n : ℚ) / d < (2 ^ 53 - 1 / 2) * (2 : ℚ) ^ (971 : ℤ) := by
  have hpos : 0 < d * Nat.pow 2 (binaryExponent n d).toNat :=
    Nat.mul_pos (Nat.pos_of_ne_zero hd) (Nat.pow_pos (by decide))
  unfold nearestRatio
  rw [if_neg (by simp [hn, hd])]
  dsimp only
  rw [isFinite_ofBits, bitsOf_lt_iff hpos (scaled_eq hd _) (isExponent_binaryExponent hn hd)]

/-- Half way from the largest double to the next power of two. -/
def limit : ℕ := 2 ^ 1024 - 2 ^ 970

theorem limit_eq : (limit : ℚ) = (2 ^ 53 - 1 / 2) * (2 : ℚ) ^ (971 : ℤ) := by
  have h : limit = (2 ^ 54 - 1) * 2 ^ 970 := by rw [limit, Nat.sub_mul, ← pow_add, one_mul]
  have hhalf : (2 : ℚ) ^ (971 : ℤ) = 2 * ((2 ^ 970 : ℕ) : ℚ) := by
    rw [Nat.cast_pow, Nat.cast_two, ← pow_succ']
    exact zpow_natCast 2 971
  rw [h, hhalf]
  generalize 2 ^ 970 = p
  push_cast
  ring

theorem limit_pos : 0 < limit := by
  have h : (0 : ℚ) < limit := by
    rw [limit_eq]
    exact mul_pos (by norm_num) (by positivity)
  exact_mod_cast h

theorem isFinite_nearest (n : ℕ) : (nearest n 0).isFinite = true ↔ n < limit := by
  rcases Nat.eq_zero_or_pos n with rfl | hpos
  · exact iff_of_true (by decide) limit_pos
  · have hn : n ≠ 0 := hpos.ne'
    unfold nearest
    dsimp only
    rw [if_neg hn]
    split
    · rename_i hlarge
      refine iff_of_false (by decide) (Nat.not_lt.mpr ?_)
      calc limit ≤ 2 ^ 1024 := by simp only [limit, tsub_le_iff_right, Nat.le_add_right]
        _ ≤ 2 ^ n.log2 := Nat.pow_le_pow_right (by decide) (by omega)
        _ ≤ n := Nat.log2_self_le hn
    · rw [if_neg (by omega), isFinite_nearestRatio (by simpa using hn) (by decide), ← limit_eq]
      simp only [Int.toNat_zero, neg_zero, Nat.pow_eq, pow_zero, mul_one, Nat.cast_one, div_one,
        Nat.cast_lt]

/-- An integer has no finite double exactly from the limit on. -/
theorem ofInt?_eq_none_iff {n : ℤ} : ofInt? n = none ↔ limit ≤ n.natAbs := by
  have hfinite : (ofInt n).isFinite = true ↔ n.natAbs < limit := by
    unfold ofInt
    split
    · exact (Iff.intro isFinite_of_neg isFinite_neg).trans (isFinite_nearest _)
    · exact isFinite_nearest _
  unfold ofInt?
  simp [hfinite]

/-- The double of an integer is finite. -/
theorem isFinite_of_ofInt? {n : ℤ} {x : Float} (h : ofInt? n = some x) : x.isFinite = true := by
  unfold ofInt? at h
  dsimp only at h
  split at h
  · cases h
    assumption
  · cases h

end EnergyGraph.Decimal
