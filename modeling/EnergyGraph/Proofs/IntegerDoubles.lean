-- The doubles of integers. The double nearest to an integer is an integer, and it is the integer
-- itself exactly if 53 binary digits are enough for it, the zeros at its end left away.
import EnergyGraph.Proofs.NumberOrder
import EnergyGraph.Proofs.Numerals

namespace EnergyGraph.Decimal

open Float.Model (Format UnpackedFloat)
open Float.Model.UnpackedFloat

/-! ## The other sign -/

section

variable (bits : UInt64)

/-- Changes the sign. -/
def flippedBits : UInt64 := UInt64.ofNat ((bits.toNat + 2 ^ 63) % 2 ^ 64)

theorem flippedBits_toNat : (flippedBits bits).toNat = (bits.toNat + 2 ^ 63) % 2 ^ 64 := by
  unfold flippedBits
  exact UInt64.toNat_ofNat_of_lt' (Nat.mod_lt _ (by decide))

theorem storedExponent_flipped : storedExponent (flippedBits bits) = storedExponent bits := by
  unfold storedExponent
  rw [flippedBits_toNat]
  omega

theorem storedFraction_flipped : storedFraction (flippedBits bits) = storedFraction bits := by
  unfold storedFraction
  rw [flippedBits_toNat]
  omega

theorem isNegativeBits_flipped : isNegativeBits (flippedBits bits) = !isNegativeBits bits := by
  have hlt := bits.toNat_lt
  rw [Bool.eq_iff_iff, Bool.not_eq_true', ← Bool.not_eq_true, isNegativeBits_iff,
    isNegativeBits_iff, flippedBits_toNat]
  omega

theorem Unpacks.neg {s : Sign} {e m : ℕ} {u : UnpackedFloat} (h : Unpacks s e m u) :
    Unpacks (-s) e m u.neg := by
  cases h with
  | infinity he hm => exact .infinity he hm
  | notANumber he hm => exact .notANumber he hm
  | zero he hm => exact .zero he hm
  | subnormal he hm => exact .subnormal he hm
  | normal he htop hm => exact .normal he htop hm

theorem unpack_flipped : unpack Format.binary64 (flippedBits bits).toBitVec =
    (unpack Format.binary64 bits.toBitVec).neg := by
  have hsign : Sign.ofBitVec (@unpackSign Format.binary64 (flippedBits bits).toBitVec) =
      -Sign.ofBitVec (@unpackSign Format.binary64 bits.toBitVec) := by
    rw [ofBitVec_unpackSign, ofBitVec_unpackSign, isNegativeBits_flipped]
    cases isNegativeBits bits <;> rfl
  have hunpacks := unpacks_bits (flippedBits bits)
  rw [hsign, storedExponent_flipped, storedFraction_flipped] at hunpacks
  exact hunpacks.unique (unpacks_bits bits).neg

end

theorem toBits_neg {x : Float} (h : x.isFinite = true) : (-x).toBits = flippedBits x.toBits := by
  have hexponent : storedExponent (flippedBits x.toBits) ≠ 0x7FF := by
    rw [storedExponent_flipped]
    exact isFinite_iff.mp h
  have hpack := pack_unpack hexponent
  rw [unpack_flipped] at hpack
  exact hpack

theorem exactValue_neg {x : Float} (h : x.isFinite = true) : exactValue (-x) = -exactValue x := by
  unfold exactValue
  dsimp only
  rw [toBits_neg h, ofBits_eq, ofBits_eq, storedExponent_flipped, storedFraction_flipped,
    isNegativeBits_flipped]
  cases isNegativeBits x.toBits <;> simp

/-! ## What bits stand for -/

/-- Digits and an exponent as they come from rounding. -/
structure Fits (m : ℕ) (e : ℤ) : Prop where
  digits : m ≤ 2 ^ 53
  least : -1074 ≤ e
  full : 2 ^ 52 ≤ m ∨ e = -1074
  inside : bitsOf m e < infinityBits

theorem magnitude_bitsOf {m : ℕ} {e : ℤ} (h : Fits m e) :
    magnitude (Float.ofBits (bitsOf m e).toUInt64) = m * (2 : ℚ) ^ e := by
  obtain ⟨hdigits, hleast, hfull, hinside⟩ := h
  have hinfinity : infinityBits = 2047 * 2 ^ 52 := rfl
  have hbits : (bitsOf m e).toUInt64.toNat = bitsOf m e :=
    UInt64.toNat_ofNat_of_lt' (hinside.trans (by decide))
  unfold magnitude
  rw [toBits_ofBits (hbits.trans_lt hinside), ofBits_eq, storedExponent, storedFraction, hbits]
  rw [bitsOf_eq] at hinside ⊢
  rcases Nat.lt_or_ge m (2 ^ 52) with hsmall | hlarge
  · -- Below the normal doubles the bits are the digits.
    obtain rfl : e = -1074 := hfull.resolve_left (by omega)
    rw [if_pos hsmall, if_pos (by omega), Nat.mod_eq_of_lt hsmall]
  · rw [if_neg (Nat.not_lt.mpr hlarge)] at hinside ⊢
    obtain ⟨k, hk⟩ : ∃ k : ℕ, e + 1075 = k + 1 := ⟨(e + 1074).toNat, by omega⟩
    rw [hk] at hinside ⊢
    rcases Nat.lt_or_eq_of_le hdigits with hlt | rfl
    · rw [if_neg (by omega)]
      have hfraction : 2 ^ 52 + ((k + 1 : ℤ).toNat * 2 ^ 52 + (m - 2 ^ 52)) % 2 ^ 52 = m := by omega
      have hexponent : ((((k + 1 : ℤ).toNat * 2 ^ 52 + (m - 2 ^ 52)) / 2 ^ 52 % 2 ^ 11 : ℕ) : ℤ) -
          1075 = e := by omega
      dsimp only
      rw [hfraction, hexponent]
    · -- A carry out of the digits is one more in the exponent.
      rw [if_neg (by omega)]
      have hfraction : 2 ^ 52 + ((k + 1 : ℤ).toNat * 2 ^ 52 + (2 ^ 53 - 2 ^ 52)) % 2 ^ 52 = 2 ^ 52 := by
        omega
      have hexponent : ((((k + 1 : ℤ).toNat * 2 ^ 52 + (2 ^ 53 - 2 ^ 52)) / 2 ^ 52 % 2 ^ 11 : ℕ) : ℤ)
          - 1075 = e + 1 := by omega
      dsimp only
      rw [hfraction, hexponent, zpow_add_one₀ (by norm_num)]
      push_cast
      ring

/-- The double nearest to a fraction, exactly: the fraction rounded to a multiple of a power. -/
theorem magnitude_nearestRatio {n d : ℕ} (hn : n ≠ 0) (hd : d ≠ 0)
    (h : (nearestRatio n d).isFinite = true) : magnitude (nearestRatio n d) =
      roundedQuotient (n * 2 ^ (-binaryExponent n d).toNat) (d * 2 ^ (binaryExponent n d).toNat) *
        (2 : ℚ) ^ binaryExponent n d := by
  have hexponent := isExponent_binaryExponent hn hd
  have hscaled := scaled_eq (n := n) hd (binaryExponent n d)
  have hpos : 0 < d * Nat.pow 2 (binaryExponent n d).toNat :=
    Nat.mul_pos (Nat.pos_of_ne_zero hd) (Nat.pow_pos (by decide))
  have hinside := (bitsOf_lt_iff hpos hscaled hexponent).mpr ((isFinite_nearestRatio hn hd).mp h)
  have hfits : Fits _ (binaryExponent n d) :=
    ⟨roundedQuotient_le_of_isExponent hpos hscaled hexponent, hexponent.least,
      or_iff_not_imp_right.mpr (full_of_isExponent hpos hscaled hexponent), hinside⟩
  unfold nearestRatio
  rw [if_neg (by simp [hn, hd])]
  dsimp only
  rw [Nat.min_eq_left hinside.le]
  exact magnitude_bitsOf hfits

/-! ## Natural numbers -/

/-- A number that 53 binary digits are enough for, the zeros at its end left away. -/
def Short (n : ℕ) : Prop := ∃ m k : ℕ, n = m * 2 ^ k ∧ m < 2 ^ 53

theorem roundedQuotient_mul {k b : ℕ} (hb : 0 < b) : roundedQuotient (k * b) b = k :=
  roundedQuotient_eq (by nlinarith) (by nlinarith) (fun _ => ⟨by nlinarith, by nlinarith⟩) hb

theorem nearest_eq_nearestRatio {n : ℕ} (hn : n ≠ 0) (h : n < limit) :
    nearest n 0 = nearestRatio n 1 := by
  have hfinite := (isFinite_nearest n).mpr h
  unfold nearest at hfinite ⊢
  dsimp only at hfinite ⊢
  rw [if_neg hn] at hfinite ⊢
  split at hfinite
  · exact absurd hfinite (by decide)
  · rename_i hsmall
    rw [if_neg hsmall, if_neg (by omega)]
    congr 1
    exact Nat.mul_one n

/-- A natural number is rounded to a multiple of a power of two, and to itself as long as it has
no more than 53 digits. -/
theorem magnitude_nearest {n : ℕ} (h : n < limit) : ∃ k : ℕ, (k = 0 ∨ 2 ^ (52 + k) ≤ n) ∧
    magnitude (nearest n 0) = (roundedQuotient n (2 ^ k) * 2 ^ k : ℕ) := by
  rcases eq_or_ne n 0 with rfl | hn
  · have hdigits : (Binary.ofBits (nearest 0 0).toBits).m = 0 := by decide
    refine ⟨0, Or.inl rfl, ?_⟩
    rw [magnitude, hdigits, Nat.cast_zero, zero_mul]
    rfl
  have hfinite := (isFinite_nearest n).mpr h
  rw [nearest_eq_nearestRatio hn h] at hfinite ⊢
  rw [magnitude_nearestRatio hn one_ne_zero hfinite]
  have hlow := (isExponent_binaryExponent hn one_ne_zero).low
  generalize binaryExponent n 1 = e at hlow ⊢
  rcases Int.lt_or_le e 0 with hneg | hpos
  · obtain ⟨k, rfl⟩ : ∃ k : ℕ, e = -(k : ℤ) := ⟨e.natAbs, by omega⟩
    have hzero : (-(k : ℤ)).toNat = 0 := by omega
    have hone : roundedQuotient n (2 ^ 0) = n := by
      simpa using roundedQuotient_mul (k := n) Nat.one_pos
    refine ⟨0, Or.inl rfl, ?_⟩
    rw [hone, hzero, neg_neg, Int.toNat_natCast, pow_zero, mul_one, mul_one]
    have hscaled := roundedQuotient_mul (k := n * 2 ^ k) Nat.one_pos
    rw [mul_one] at hscaled
    rw [hscaled, zpow_neg, zpow_natCast]
    push_cast
    exact mul_inv_cancel_right₀ (by positivity) _
  · obtain ⟨k, rfl⟩ : ∃ k : ℕ, e = k := ⟨e.toNat, by omega⟩
    have hzero : (-(k : ℤ)).toNat = 0 := by omega
    refine ⟨k, Or.inr ?_, ?_⟩
    · have hle := hlow.resolve_right (by omega)
      rw [Nat.cast_one, div_one, zpow_natCast, ← pow_add] at hle
      exact_mod_cast hle
    · rw [hzero, Int.toNat_natCast, pow_zero, mul_one, one_mul, zpow_natCast]
      push_cast
      rfl

/-- A double whose magnitude is a natural number has no more than 53 digits. -/
theorem short_of_magnitude {x : Float} {n : ℕ} (hx : x.isFinite = true) (h : magnitude x = n) :
    Short n := by
  have hsmall := (wellFormed_ofBits hx).small
  unfold magnitude at h
  generalize (Binary.ofBits x.toBits).m = m at hsmall h
  generalize (Binary.ofBits x.toBits).q = q at h
  rcases Int.lt_or_le q 0 with hneg | hpos
  · have hle : (n : ℚ) ≤ m := by
      rw [← h]
      exact mul_le_of_le_one_right (by positivity) (zpow_le_one_of_nonpos₀ (by norm_num) hneg.le)
    have hle' : n ≤ m := by exact_mod_cast hle
    exact ⟨n, 0, (mul_one n).symm, by omega⟩
  · obtain ⟨k, rfl⟩ : ∃ k : ℕ, q = k := ⟨q.toNat, by omega⟩
    rw [zpow_natCast] at h
    exact ⟨m, k, by exact_mod_cast h.symm, hsmall⟩

theorem magnitude_nearest_iff {n : ℕ} (h : n < limit) : magnitude (nearest n 0) = n ↔ Short n := by
  refine ⟨short_of_magnitude ((isFinite_nearest n).mpr h), ?_⟩
  rintro ⟨m, j, rfl, hm⟩
  obtain ⟨k, hk, hmagnitude⟩ := magnitude_nearest h
  have hdvd : 2 ^ k ∣ m * 2 ^ j := by
    refine Dvd.dvd.mul_left (Nat.pow_dvd_pow 2 ?_) m
    rcases hk with rfl | hle
    · exact Nat.zero_le j
    · have hlt : 2 ^ (52 + k) < 2 ^ (53 + j) :=
        calc 2 ^ (52 + k) ≤ m * 2 ^ j := hle
          _ < 2 ^ 53 * 2 ^ j := Nat.mul_lt_mul_of_pos_right hm (Nat.two_pow_pos j)
          _ = 2 ^ (53 + j) := (pow_add 2 53 j).symm
      have := (Nat.pow_lt_pow_iff_right (by decide)).mp hlt
      omega
  obtain ⟨q, hq⟩ := hdvd
  rw [hmagnitude, hq, mul_comm (2 ^ k) q, roundedQuotient_mul (Nat.two_pow_pos k)]

/-! ## Integers -/

/-- The double of an integer below zero is the double of its magnitude with the other sign. -/
theorem ofInt?_of_neg {n : ℤ} (h : n < 0) : ofInt? n = (ofInt? n.natAbs).map fun x => -x := by
  have hmagnitude : ofInt n.natAbs = nearest n.natAbs 0 := by
    unfold ofInt
    rw [if_neg (by omega), Int.natAbs_natCast]
  have hsigned : ofInt n = -ofInt n.natAbs := by
    rw [hmagnitude]
    exact if_pos h
  unfold ofInt?
  dsimp only
  rw [hsigned]
  cases hfinite : (ofInt n.natAbs).isFinite with
  | true => rw [isFinite_neg hfinite]; rfl
  | false =>
    have hneg : (-ofInt n.natAbs).isFinite = false := by
      rw [Bool.eq_false_iff]
      intro hneg
      rw [isFinite_of_neg hneg] at hfinite
      cases hfinite
    rw [hneg]
    rfl

section

variable {n : ℤ} {x : Float} (h : ofInt? n = some x)

include h

/-- The double of an integer is an integer, of the same sign. -/
theorem exactValue_of_ofInt? : ∃ k : ℕ, exactValue x = (if n < 0 then -k else k : ℤ) ∧
    (k = n.natAbs ↔ Short n.natAbs) := by
  have hlimit : n.natAbs < limit := by
    rw [← not_le, ← ofInt?_eq_none_iff, h]
    nofun
  have hfinite := (isFinite_nearest n.natAbs).mpr hlimit
  obtain ⟨k, -, hmagnitude⟩ := magnitude_nearest hlimit
  have hexact : exactValue (nearest n.natAbs 0) =
      (roundedQuotient n.natAbs (2 ^ k) * 2 ^ k : ℕ) := by
    rw [exactValue_eq_magnitude, isNegativeBits_nearest, if_neg Bool.false_ne_true, hmagnitude]
  have hx : ofInt n = x := by
    unfold ofInt? at h
    dsimp only at h
    split at h
    · exact Option.some.inj h
    · cases h
  refine ⟨roundedQuotient n.natAbs (2 ^ k) * 2 ^ k, ?_, ?_⟩
  · rw [← hx]
    unfold ofInt
    split
    · rw [exactValue_neg hfinite, hexact, Int.cast_neg, Int.cast_natCast]
    · rw [hexact, Int.cast_natCast]
  · rw [← magnitude_nearest_iff hlimit, hmagnitude, Nat.cast_inj]

theorem isIntegral_of_ofInt? : isIntegral x = true := by
  obtain ⟨k, hexact, -⟩ := exactValue_of_ofInt? h
  exact isIntegral_iff.mpr ⟨isFinite_of_ofInt? h, _, hexact⟩

/-- An integer comes back from its double exactly if it is short. -/
theorem truncated_of_ofInt? : truncated x = n ↔ Short n.natAbs := by
  obtain ⟨k, hexact, hshort⟩ := exactValue_of_ofInt? h
  rw [truncated_eq hexact, ← hshort]
  split <;> omega

end

end EnergyGraph.Decimal
