-- The bits of doubles: the sign, eleven bits of exponent and 52 bits of fraction. They say
-- whether a double is finite, and what its parts are as a natural number times a power of two.
import EnergyGraph.Decimal.Binary
import EnergyGraph.Decimal.Rounding
import Mathlib.Data.Nat.Bitwise

namespace EnergyGraph.Decimal

open Float.Model (Format UnpackedFloat)
open Float.Model.UnpackedFloat

/-- Doubles with the same bits are the same. -/
theorem toBits_inj {x y : Float} (h : x.toBits = y.toBits) : x = y := by
  obtain ⟨⟨bits, _⟩⟩ := x
  obtain ⟨⟨bits', _⟩⟩ := y
  cases (h : bits = bits')
  rfl

/-! ## Fields -/

/-- The exponent of the bits of a double, as it is stored. -/
def storedExponent (bits : UInt64) : Nat := bits.toNat / 2 ^ 52 % 2 ^ 11

/-- The bits of the fraction of a double. -/
def storedFraction (bits : UInt64) : Nat := bits.toNat % 2 ^ 52

section

variable (bits : UInt64)

theorem unpackExponent_toNat :
    (@unpackExponent Format.binary64 bits.toBitVec).toNat = storedExponent bits := by
  unfold unpackExponent
  rw [BitVec.toNat_cast, BitVec.extractLsb_toNat, Nat.shiftRight_eq_div_pow]
  rfl

theorem unpackMantissa_toNat :
    (@unpackMantissa Format.binary64 bits.toBitVec).toNat = storedFraction bits := by
  unfold unpackMantissa
  rw [BitVec.toNat_cast, BitVec.extractLsb_toNat, Nat.shiftRight_eq_div_pow, Nat.pow_zero,
    Nat.div_one]
  rfl

theorem unpackSign_toNat :
    (@unpackSign Format.binary64 bits.toBitVec).toNat = bits.toNat / 2 ^ 63 % 2 := by
  unfold unpackSign
  rw [BitVec.toNat_cast, BitVec.extractLsb_toNat, Nat.shiftRight_eq_div_pow]
  rfl

theorem storedFraction_lt : storedFraction bits < 2 ^ 52 := Nat.mod_lt _ (by decide)

theorem storedExponent_lt : storedExponent bits < 2 ^ 11 := Nat.mod_lt _ (by decide)

/-- The bits without the sign. -/
theorem magnitude_eq :
    bits.toNat % 2 ^ 63 = storedExponent bits * 2 ^ 52 + storedFraction bits := by
  unfold storedExponent storedFraction
  omega

theorem isNegativeBits_iff : isNegativeBits bits = true ↔ 2 ^ 63 ≤ bits.toNat := by
  have hlt := bits.toNat_lt
  have hshift : (bits >>> 63).toNat = bits.toNat / 2 ^ 63 := by
    rw [UInt64.toNat_shiftRight, Nat.shiftRight_eq_div_pow]
    rfl
  unfold isNegativeBits
  rw [beq_iff_eq, ← UInt64.toNat_inj, hshift]
  change bits.toNat / 2 ^ 63 = 1 ↔ _
  omega

/-- The parts of a double that is not below the normal ones, or is. -/
theorem ofBits_eq : Binary.ofBits bits =
    if storedExponent bits = 0 then ⟨storedFraction bits, -1074, false⟩
    else ⟨2 ^ 52 + storedFraction bits, storedExponent bits - 1075,
      storedFraction bits == 0 && decide (1 < storedExponent bits)⟩ := by
  have hexponent : ((bits >>> 52) &&& 0x7FF).toNat = storedExponent bits := by
    rw [UInt64.toNat_and, UInt64.toNat_shiftRight, Nat.shiftRight_eq_div_pow]
    exact Nat.and_two_pow_sub_one_eq_mod _ 11
  have hfraction : (bits &&& 0xFFFFFFFFFFFFF).toNat = storedFraction bits := by
    rw [UInt64.toNat_and]
    exact Nat.and_two_pow_sub_one_eq_mod _ 52
  unfold Binary.ofBits
  simp only [hexponent, hfraction, beq_iff_eq]
  rfl

end

/-! ## Packing -/

theorem packComponents_toNat (s : Sign) (e : BitVec 11) (m : BitVec 52) :
    (packComponents Format.binary64 s e m).toNat =
      s.toBitVec.toNat * 2 ^ 63 + e.toNat * 2 ^ 52 + m.toNat := by
  unfold packComponents
  rw [BitVec.toNat_append, BitVec.toNat_append, ← Nat.shiftLeft_add_eq_or_of_lt e.isLt,
    ← Nat.shiftLeft_add_eq_or_of_lt m.isLt, Nat.shiftLeft_eq, Nat.shiftLeft_eq]
  omega

theorem toBitVec_ofBitVec (b : BitVec 1) : (Sign.ofBitVec b).toBitVec = b := by
  revert b
  decide

/-- Fields put together again. -/
theorem pack_fields {bits : UInt64} {e : BitVec 11} {m : BitVec 52}
    (he : e.toNat = storedExponent bits) (hm : m.toNat = storedFraction bits) :
    UInt64.ofBitVec (packComponents Format.binary64
      (Sign.ofBitVec (@unpackSign Format.binary64 bits.toBitVec)) e m) = bits := by
  have hlt := bits.toNat_lt
  rw [← UInt64.toNat_inj]
  change (packComponents Format.binary64 _ e m).toNat = bits.toNat
  rw [packComponents_toNat, toBitVec_ofBitVec, unpackSign_toNat, he, hm, Nat.add_assoc,
    ← magnitude_eq]
  omega

theorem exponentBias_eq : Format.binary64.exponentBias = 1023 := rfl

theorem mantissaBits_eq : Format.binary64.mantissaBits = 53 := rfl

theorem pack_normal {s : Sign} {m : Nat} {e : Int} {hm : 0 < m} (hlow : 2 ^ 52 ≤ m)
    (hhigh : m < 2 ^ 53) (he : e ≤ 971) :
    pack Format.binary64 (.finite s m e hm) =
      packComponents Format.binary64 s (BitVec.ofNat 11 (e + 1075).toNat) (BitVec.ofNat 52 m) := by
  have hlog : m.log2 = 52 := (Nat.log2_eq_iff (Nat.ne_of_gt hm)).mpr ⟨hlow, hhigh⟩
  have hexponent : e + (1023 : Nat) + (52 : Nat) = e + 1075 := by omega
  unfold pack
  simp only [exponentBias_eq, mantissaBits_eq, hexponent, hlog, if_true]
  rw [if_neg (by omega)]

theorem pack_subnormal {s : Sign} {m : Nat} {hm : 0 < m} (hsmall : m < 2 ^ 52) :
    pack Format.binary64 (.finite s m (-1074) hm) =
      packComponents Format.binary64 s 0#11 (BitVec.ofNat 52 m) := by
  have hlog : m.log2 < 52 := (Nat.log2_lt (Nat.ne_of_gt hm)).mpr hsmall
  have hne : m.log2 + 1 ≠ 53 := by omega
  unfold pack
  simp only [exponentBias_eq, mantissaBits_eq, hne, if_false]
  rw [if_neg (by decide)]

/-! ## Unpacking -/

/-- A sign, an exponent and a fraction as they are stored, and what they stand for. -/
inductive Unpacks (s : Sign) (e m : Nat) : UnpackedFloat → Prop
  | infinity (he : e = 0x7FF) (hm : m = 0) : Unpacks s e m (.infinity s)
  | notANumber (he : e = 0x7FF) (hm : m ≠ 0) : Unpacks s e m .notANumber
  | zero (he : e = 0) (hm : m = 0) : Unpacks s e m (.zero s)
  | subnormal (he : e = 0) (hm : 0 < m) : Unpacks s e m (.finite s m (-1074) hm)
  | normal (he : e ≠ 0) (htop : e ≠ 0x7FF) (hm : 0 < 2 ^ 52 + m) :
    Unpacks s e m (.finite s (2 ^ 52 + m) (e - 1075) hm)

namespace Unpacks

variable {s : Sign} {e m : Nat} {u v : UnpackedFloat}

theorem unique (hu : Unpacks s e m u) (hv : Unpacks s e m v) : u = v := by
  cases hu <;> cases hv <;> first | rfl | omega

theorem isFinite_iff (h : Unpacks s e m u) : u.isFinite = true ↔ e ≠ 0x7FF := by
  cases h with
  | infinity he hm => exact iff_of_false Bool.false_ne_true (not_not_intro he)
  | notANumber he hm => exact iff_of_false Bool.false_ne_true (not_not_intro he)
  | zero he hm => exact iff_of_true rfl (by omega)
  | subnormal he hm => exact iff_of_true rfl (by omega)
  | normal he htop hm => exact iff_of_true rfl htop

theorem isNaN_iff (h : Unpacks s e m u) : u.isNaN = true ↔ e = 0x7FF ∧ m ≠ 0 := by
  cases h with
  | infinity he hm => exact iff_of_false Bool.false_ne_true (by omega)
  | notANumber he hm => exact iff_of_true rfl ⟨he, hm⟩
  | zero he hm => exact iff_of_false Bool.false_ne_true (by omega)
  | subnormal he hm => exact iff_of_false Bool.false_ne_true (by omega)
  | normal he htop hm => exact iff_of_false Bool.false_ne_true (by omega)

theorem abs (h : Unpacks s e m u) : Unpacks .positive e m u.abs := by
  cases h with
  | infinity he hm => exact .infinity he hm
  | notANumber he hm => exact .notANumber he hm
  | zero he hm => exact .zero he hm
  | subnormal he hm => exact .subnormal he hm
  | normal he htop hm => exact .normal he htop hm

end Unpacks

theorem finite_congr {s : Sign} {m n : Nat} {e f : Int} {hm : 0 < m} (hn : 0 < n) (h : m = n)
    (he : e = f) : UnpackedFloat.finite s m e hm = .finite s n f hn := by
  subst h he
  rfl

theorem unpacks (b : BitVec 64) :
    Unpacks (Sign.ofBitVec (@unpackSign Format.binary64 b))
      (@unpackExponent Format.binary64 b).toNat (@unpackMantissa Format.binary64 b).toNat
      (unpack Format.binary64 b) := by
  unfold unpack
  dsimp only
  by_cases hones : @unpackExponent Format.binary64 b = -1#11
  · have he : (@unpackExponent Format.binary64 b).toNat = 0x7FF := by rw [hones]; rfl
    rw [if_pos hones]
    by_cases hnone : @unpackMantissa Format.binary64 b = 0#52
    · rw [if_pos hnone]
      exact .infinity he (congrArg BitVec.toNat hnone)
    · rw [if_neg hnone]
      exact .notANumber he fun h => hnone (BitVec.eq_of_toNat_eq h)
  · rw [if_neg hones]
    by_cases hzero : @unpackExponent Format.binary64 b = 0#11
    · have he : (@unpackExponent Format.binary64 b).toNat = 0 := by rw [hzero]; rfl
      rw [if_pos hzero]
      by_cases hnone : @unpackMantissa Format.binary64 b = 0#52
      · rw [dif_pos hnone]
        exact .zero he (congrArg BitVec.toNat hnone)
      · have hpositive : 0 < (@unpackMantissa Format.binary64 b).toNat :=
          Nat.pos_of_ne_zero fun h => hnone (BitVec.eq_of_toNat_eq h)
        rw [dif_neg hnone, finite_congr hpositive rfl (by rw [he, exponentBias_eq])]
        exact .subnormal he hpositive
    · have hfull : (1#1 ++ @unpackMantissa Format.binary64 b).toNat =
          2 ^ 52 + (@unpackMantissa Format.binary64 b).toNat := by
        rw [BitVec.toNat_append, ← Nat.shiftLeft_add_eq_or_of_lt (BitVec.isLt _)]
        rfl
      rw [if_neg hzero, finite_congr (Nat.add_pos_left (by decide) _) hfull
        (by rw [exponentBias_eq])]
      exact .normal (fun h => hzero (BitVec.eq_of_toNat_eq h))
        (fun h => hones (BitVec.eq_of_toNat_eq h)) _

theorem unpacks_bits (bits : UInt64) :
    Unpacks (Sign.ofBitVec (@unpackSign Format.binary64 bits.toBitVec)) (storedExponent bits)
      (storedFraction bits) (unpack Format.binary64 bits.toBitVec) := by
  rw [← unpackExponent_toNat, ← unpackMantissa_toNat]
  exact unpacks _

/-- A double that is unpacked and packed is what it was. -/
theorem pack_unpack {bits : UInt64} (h : storedExponent bits ≠ 0x7FF) :
    UInt64.ofBitVec (pack Format.binary64 (unpack Format.binary64 bits.toBitVec)) = bits := by
  have hstored := storedExponent_lt bits
  have hfraction := storedFraction_lt bits
  have hunpacks := unpacks_bits bits
  generalize unpack Format.binary64 bits.toBitVec = u at hunpacks ⊢
  cases hunpacks with
  | infinity he hm => exact absurd he h
  | notANumber he hm => exact absurd he h
  | zero he hm => exact pack_fields he.symm hm.symm
  | subnormal he hm =>
    rw [pack_subnormal hfraction]
    refine pack_fields he.symm ?_
    rw [BitVec.toNat_ofNat, Nat.mod_eq_of_lt hfraction]
  | normal he htop hm =>
    rw [pack_normal (Nat.le_add_right _ _) (by omega) (by omega)]
    refine pack_fields ?_ ?_
    · rw [BitVec.toNat_ofNat]
      omega
    · rw [BitVec.toNat_ofNat]
      omega

/-! ## Finite doubles -/

theorem isNaN_of_isFinite_unpacked {u : UnpackedFloat} (h : u.isFinite = true) :
    u.isNaN = false := by
  cases u with
  | notANumber | infinity => cases h
  | zero | finite => rfl

theorem isInf_of_isFinite_unpacked {u : UnpackedFloat} (h : u.isFinite = true) :
    u.isInf = false := by
  cases u with
  | notANumber | infinity => cases h
  | zero | finite => rfl

section

variable {x : Float}

theorem isFinite_iff : x.isFinite = true ↔ storedExponent x.toBits ≠ 0x7FF :=
  (unpacks_bits x.toBits).isFinite_iff

theorem isNaN_of_isFinite (h : x.isFinite = true) : x.isNaN = false :=
  isNaN_of_isFinite_unpacked h

theorem isInf_of_isFinite (h : x.isFinite = true) : x.isInf = false :=
  isInf_of_isFinite_unpacked h

/-- Bits below those of infinity are those of a finite double. -/
theorem toBits_ofBits {bits : UInt64} (h : bits.toNat < infinityBits) :
    (Float.ofBits bits).toBits = bits := by
  have hinfinity : infinityBits = 0x7FF * 2 ^ 52 := rfl
  have hexponent : storedExponent bits ≠ 0x7FF := by
    unfold storedExponent
    omega
  exact pack_unpack hexponent

end

/-! ## Magnitudes -/

section

variable (bits : UInt64)

/-- Clears the sign. -/
def unsignedBits : UInt64 := UInt64.ofNat (bits.toNat % 2 ^ 63)

theorem unsignedBits_toNat : (unsignedBits bits).toNat = bits.toNat % 2 ^ 63 := by
  unfold unsignedBits
  exact UInt64.toNat_ofNat_of_lt' (Nat.lt_trans (Nat.mod_lt _ (by decide)) (by decide))

theorem storedExponent_unsigned : storedExponent (unsignedBits bits) = storedExponent bits := by
  unfold storedExponent
  rw [unsignedBits_toNat]
  omega

theorem storedFraction_unsigned : storedFraction (unsignedBits bits) = storedFraction bits := by
  unfold storedFraction
  rw [unsignedBits_toNat]
  omega

theorem unpack_unsigned : unpack Format.binary64 (unsignedBits bits).toBitVec =
    (unpack Format.binary64 bits.toBitVec).abs := by
  have hsign : @unpackSign Format.binary64 (unsignedBits bits).toBitVec = 0#1 := by
    rw [← BitVec.toNat_inj, unpackSign_toNat, unsignedBits_toNat]
    change bits.toNat % 2 ^ 63 / 2 ^ 63 % 2 = 0
    omega
  have hunpacks := unpacks_bits (unsignedBits bits)
  rw [hsign, storedExponent_unsigned, storedFraction_unsigned] at hunpacks
  exact hunpacks.unique (unpacks_bits bits).abs

end

section

variable {x : Float} (h : x.isFinite = true)

include h

theorem unsignedBits_lt : (unsignedBits x.toBits).toNat < infinityBits := by
  have hexponent := isFinite_iff.mp h
  have hstored := storedExponent_lt x.toBits
  have hfraction := storedFraction_lt x.toBits
  have hinfinity : infinityBits = 0x7FF * 2 ^ 52 := rfl
  rw [unsignedBits_toNat, magnitude_eq]
  omega

/-- The bits of the absolute value of a finite double. -/
theorem toBits_abs : x.abs.toBits = unsignedBits x.toBits := by
  rw [← toBits_ofBits (unsignedBits_lt h)]
  change UInt64.ofBitVec (pack Format.binary64 (unpack Format.binary64 x.toBits.toBitVec).abs) = _
  rw [← unpack_unsigned]
  rfl

theorem ofBits_unsignedBits : Float.ofBits (unsignedBits x.toBits) = x.abs :=
  toBits_inj ((toBits_ofBits (unsignedBits_lt h)).trans (toBits_abs h).symm)

theorem isFinite_abs : x.abs.isFinite = true := by
  rw [isFinite_iff, toBits_abs h, storedExponent_unsigned]
  exact isFinite_iff.mp h

/-- A finite double that is not negative is its own absolute value. -/
theorem abs_eq_self (hsign : isNegativeBits x.toBits = false) : x.abs = x := by
  have hlt : ¬ 2 ^ 63 ≤ x.toBits.toNat := by
    rw [← isNegativeBits_iff, hsign]
    simp
  refine toBits_inj ?_
  rw [toBits_abs h, ← UInt64.toNat_inj, unsignedBits_toNat]
  omega

end

end EnergyGraph.Decimal
