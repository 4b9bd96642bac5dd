-- The order of numbers. Integers of any size and doubles are compared exactly, as the numbers
-- on the extended real line that they are. What is no number is on neither side of any other.
import EnergyGraph.Decimal.Compare
import EnergyGraph.Proofs.ExtendedReals
import EnergyGraph.Proofs.FiniteDoubles

namespace EnergyGraph

/-! ## Unpacked doubles -/

section

open Float.Model (UnpackedFloat Format)
open Float.Model.UnpackedFloat (Sign unpack unpackSign)
open Decimal (storedFraction_lt unpacks_bits isNegativeBits)

/-- The number that a finite unpacked double stands for. -/
def rationalValue : UnpackedFloat → ℚ
  | .finite .positive m e _ => m * (2 : ℚ) ^ e
  | .finite .negative m e _ => -(m * (2 : ℚ) ^ e)
  | _ => 0

/-- The number that an unpacked double stands for. What is no number is left at zero. -/
noncomputable def unpackedValue : UnpackedFloat → EReal
  | .infinity .positive => ⊤
  | .infinity .negative => ⊥
  | u => ((rationalValue u : ℚ) : ℝ)

/-- Finite parts as doubles have them: all digits are used, or the exponent is the least. -/
inductive Canonical : UnpackedFloat → Prop
  | infinity (s : Sign) : Canonical (.infinity s)
  | zero (s : Sign) : Canonical (.zero s)
  | finite {s m e hm} (digits : m < 2 ^ 53) (least : -1074 ≤ e) (full : 2 ^ 52 ≤ m ∨ e = -1074) :
    Canonical (.finite s m e hm)

variable {m n : Nat} {e f : Int}

theorem magnitude_lt (hm : m < 2 ^ 53) (hn : 2 ^ 52 ≤ n) (h : e < f) :
    (m : ℚ) * (2 : ℚ) ^ e < n * (2 : ℚ) ^ f := by
  have htwo : (0 : ℚ) < (2 : ℚ) ^ e := zpow_pos (by norm_num) e
  have hm' : (m : ℚ) < 2 ^ 53 := by exact_mod_cast hm
  have hn' : (2 : ℚ) ^ 52 ≤ n := by exact_mod_cast hn
  calc (m : ℚ) * (2 : ℚ) ^ e < 2 ^ 53 * (2 : ℚ) ^ e := mul_lt_mul_of_pos_right hm' htwo
    _ = 2 ^ 52 * (2 : ℚ) ^ (e + 1) := by rw [zpow_add₀ (by norm_num), zpow_one]; ring
    _ ≤ 2 ^ 52 * (2 : ℚ) ^ f :=
      mul_le_mul_of_nonneg_left (zpow_le_zpow_right₀ (by norm_num) (by omega)) (by norm_num)
    _ ≤ n * (2 : ℚ) ^ f := mul_le_mul_of_nonneg_right hn' (zpow_pos (by norm_num) f).le

/-- Of two magnitudes the one with the larger exponent is larger, and then the one with more
digits. -/
theorem compare_magnitudes (hm : m < 2 ^ 53) (hn : n < 2 ^ 53) (he : -1074 ≤ e) (hf : -1074 ≤ f)
    (hfulle : 2 ^ 52 ≤ m ∨ e = -1074) (hfullf : 2 ^ 52 ≤ n ∨ f = -1074) :
    (compare e f).then (compare m n) = .lt ↔ (m : ℚ) * (2 : ℚ) ^ e < n * (2 : ℚ) ^ f := by
  rcases Int.lt_trichotomy e f with hlt | rfl | hgt
  · have hnormal : 2 ^ 52 ≤ n := hfullf.resolve_right (by omega)
    rw [compare_lt_iff_lt.mpr hlt]
    exact iff_of_true rfl (magnitude_lt hm hnormal hlt)
  · have htwo : (0 : ℚ) < (2 : ℚ) ^ e := zpow_pos (by norm_num) e
    rw [compare_eq_iff_eq.mpr rfl, Ordering.then, compare_lt_iff_lt, mul_lt_mul_iff_left₀ htwo,
      Nat.cast_lt]
  · have hnormal : 2 ^ 52 ≤ m := hfulle.resolve_right (by omega)
    rw [compare_gt_iff_gt.mpr hgt]
    exact iff_of_false nofun (magnitude_lt hn hnormal hgt).le.not_gt

theorem swap_then_compare :
    ((compare e f).then (compare m n)).swap = (compare f e).then (compare n m) := by
  rw [Ordering.swap_then, Int.compare_swap, Nat.compare_swap]

theorem magnitude_pos (hm : 0 < m) : 0 < (m : ℚ) * (2 : ℚ) ^ e :=
  mul_pos (Nat.cast_pos.mpr hm) (zpow_pos (by norm_num) e)

theorem compare_finite {s t : Sign} {hm : 0 < m} {hn : 0 < n}
    (hu : Canonical (.finite s m e hm)) (hv : Canonical (.finite t n f hn)) :
    (UnpackedFloat.finite s m e hm).compare (.finite t n f hn) = some .lt ↔
      rationalValue (.finite s m e hm) < rationalValue (.finite t n f hn) := by
  cases hu with
  | finite hdigits hleast hfull =>
    cases hv with
    | finite hdigits' hleast' hfull' =>
      have hpos := magnitude_pos (e := e) hm
      have hpos' := magnitude_pos (e := f) hn
      cases s <;> cases t
      · change some ((compare e f).then (compare m n)).swap = some .lt ↔ -_ < -_
        rw [swap_then_compare, Option.some.injEq, neg_lt_neg_iff]
        exact compare_magnitudes hdigits' hdigits hleast' hleast hfull' hfull
      · exact iff_of_true rfl ((neg_lt_zero.mpr hpos).trans hpos')
      · exact iff_of_false nofun ((neg_lt_zero.mpr hpos').trans hpos).not_gt
      · change some ((compare e f).then (compare m n)) = some .lt ↔ _
        rw [Option.some.injEq]
        exact compare_magnitudes hdigits hdigits' hleast hleast' hfull hfull'

/-- Doubles compare as the numbers that they stand for. -/
theorem compare_lt_iff_value {u v : UnpackedFloat} (hu : Canonical u) (hv : Canonical v) :
    u.compare v = some .lt ↔ unpackedValue u < unpackedValue v := by
  have hcoe {p q : ℚ} : ((p : ℝ) : EReal) < ((q : ℝ) : EReal) ↔ p < q := by
    rw [EReal.coe_lt_coe_iff, Rat.cast_lt]
  rcases u with s | _ | s | ⟨s, m, e, hm⟩
  · rcases v with t | _ | t | ⟨t, n, f, hn⟩
    · cases s <;> cases t
      · exact iff_of_false nofun (lt_irrefl _)
      · exact iff_of_true rfl bot_lt_top
      · exact iff_of_false nofun bot_lt_top.not_gt
      · exact iff_of_false nofun (lt_irrefl _)
    · cases hv
    · cases s
      · exact iff_of_true rfl (EReal.bot_lt_coe _)
      · exact iff_of_false nofun (EReal.coe_lt_top _).not_gt
    · cases s
      · exact iff_of_true rfl (EReal.bot_lt_coe _)
      · exact iff_of_false nofun (EReal.coe_lt_top _).not_gt
  · cases hu
  · rcases v with t | _ | t | ⟨t, n, f, hn⟩
    · cases t
      · exact iff_of_false nofun (EReal.bot_lt_coe _).not_gt
      · exact iff_of_true rfl (EReal.coe_lt_top _)
    · cases hv
    · exact iff_of_false nofun (lt_irrefl _)
    · have hpos := magnitude_pos (e := f) hn
      refine Iff.trans ?_ hcoe.symm
      cases t
      · exact iff_of_false nofun (neg_lt_zero.mpr hpos).not_gt
      · exact iff_of_true rfl hpos
  · rcases v with t | _ | t | ⟨t, n, f, hn⟩
    · cases t
      · exact iff_of_false nofun (EReal.bot_lt_coe _).not_gt
      · exact iff_of_true rfl (EReal.coe_lt_top _)
    · cases hv
    · have hpos := magnitude_pos (e := e) hm
      refine Iff.trans ?_ hcoe.symm
      cases s
      · exact iff_of_true rfl (neg_lt_zero.mpr hpos)
      · exact iff_of_false nofun hpos.not_gt
    · exact (compare_finite hu hv).trans hcoe.symm

theorem canonical_unpack {x : Float} (h : x.isNaN = false) : Canonical x.toModel.unpack := by
  have hfraction := storedFraction_lt x.toBits
  have hunpacks := unpacks_bits x.toBits
  have hne := unpack_ne h
  change unpack Format.binary64 x.toBits.toBitVec ≠ .notANumber at hne
  change Canonical (unpack Format.binary64 x.toBits.toBitVec)
  generalize unpack Format.binary64 x.toBits.toBitVec = u at hunpacks hne ⊢
  cases hunpacks with
  | infinity => exact .infinity _
  | notANumber => exact absurd rfl hne
  | zero => exact .zero _
  | subnormal => exact .finite (by omega) le_rfl (Or.inr rfl)
  | normal => exact .finite (by omega) (by omega) (Or.inl (Nat.le_add_right _ _))

theorem ofBitVec_unpackSign (bits : UInt64) :
    Sign.ofBitVec (@unpackSign Format.binary64 bits.toBitVec) =
      if isNegativeBits bits then .negative else .positive := by
  have htoNat := Decimal.unpackSign_toNat bits
  have hlt := bits.toNat_lt
  unfold Sign.ofBitVec
  by_cases hsign : @unpackSign Format.binary64 bits.toBitVec = 0#1
  · rw [hsign] at htoNat
    change 0 = _ at htoNat
    rw [if_pos hsign, if_neg]
    rw [Decimal.isNegativeBits_iff]
    omega
  · have hne : (@unpackSign Format.binary64 bits.toBitVec).toNat ≠ 0 :=
      fun h => hsign (BitVec.eq_of_toNat_eq h)
    rw [if_neg hsign, if_pos]
    rw [Decimal.isNegativeBits_iff]
    omega

theorem rationalValue_signed (negative : Bool) {hm : 0 < m} :
    rationalValue (.finite (if negative then .negative else .positive) m e hm) =
      (if negative then -1 else 1) * m * (2 : ℚ) ^ e := by
  cases negative
  · change (m : ℚ) * 2 ^ e = 1 * m * 2 ^ e
    ring
  · change -((m : ℚ) * 2 ^ e) = -1 * m * 2 ^ e
    ring

/-- The exact value of a finite double is that of its parts. -/
theorem exactValue_eq {x : Float} (h : x.isFinite = true) :
    Decimal.exactValue x = rationalValue x.toModel.unpack := by
  have hstored := Decimal.isFinite_iff.mp h
  have hunpacks := unpacks_bits x.toBits
  unfold Decimal.exactValue
  dsimp only
  rw [Decimal.ofBits_eq]
  change _ = rationalValue (unpack Format.binary64 x.toBits.toBitVec)
  rw [ofBitVec_unpackSign] at hunpacks
  generalize unpack Format.binary64 x.toBits.toBitVec = u at hunpacks ⊢
  cases hunpacks with
  | infinity he => exact absurd he hstored
  | notANumber he => exact absurd he hstored
  | zero he hm =>
    rw [if_pos he, hm, Nat.cast_zero, mul_zero, zero_mul]
    rfl
  | subnormal he hm => rw [if_pos he, rationalValue_signed]
  | normal he htop hm => rw [if_neg he, rationalValue_signed]

/-- A double that is a number stands for the number of its parts. -/
theorem ofDouble_eq {x : Float} (h : x.isNaN = false) :
    Extended.ofDouble x = unpackedValue x.toModel.unpack := by
  have hinf : x.isInf = x.toModel.unpack.isInf := rfl
  have hfinite : x.isFinite = x.toModel.unpack.isFinite := rfl
  have hzero : (0.0 : Float).toModel.unpack = .zero .positive := by rfl
  have hexact := exactValue_eq (x := x)
  have hneg : x < 0.0 ↔ x.toModel.unpack.compare (.zero .positive) = some .lt := by
    rw [float_lt_iff, hzero]
  have hne := unpack_ne h
  unfold Extended.ofDouble
  rw [h, hinf]
  rw [hfinite] at hexact
  generalize x.toModel.unpack = u at *
  cases u with
  | infinity s =>
    rw [if_pos (show (UnpackedFloat.infinity s).isInf = true from rfl)]
    cases s
    · exact if_pos (hneg.mpr rfl)
    · exact if_neg fun hlt => nomatch hneg.mp hlt
  | notANumber => exact absurd rfl hne
  | zero s =>
    rw [hexact rfl]
    rfl
  | finite s m e hm =>
    rw [hexact rfl]
    rfl

theorem float_lt_iff_value {x y : Float} (hx : x.isNaN = false) (hy : y.isNaN = false) :
    x < y ↔ Extended.ofDouble x < Extended.ofDouble y := by
  rw [ofDouble_eq hx, ofDouble_eq hy, float_lt_iff]
  exact compare_lt_iff_value (canonical_unpack hx) (canonical_unpack hy)

end

/-! ## Integers below and above doubles -/

namespace Decimal

theorem Binary.floor_eq (b : Binary) : (b.floor : ℤ) = ⌊(b.m : ℚ) * (2 : ℚ) ^ b.q⌋ := by
  unfold Binary.floor
  rcases Int.lt_or_le b.q 0 with hneg | hpos
  · obtain ⟨k, hk⟩ : ∃ k : ℕ, b.q = -(k : ℤ) := ⟨b.q.natAbs, by omega⟩
    rw [if_neg (by omega), hk, Int.neg_neg, Int.toNat_natCast, zpow_neg, zpow_natCast,
      ← div_eq_mul_inv]
    have hfloor := Rat.floor_natCast_div_natCast b.m (2 ^ k)
    push_cast at hfloor
    rw [hfloor]
    rfl
  · obtain ⟨k, hk⟩ : ∃ k : ℕ, b.q = k := ⟨b.q.toNat, by omega⟩
    rw [if_pos hpos, hk, Int.toNat_natCast, zpow_natCast]
    have hcast : (b.m : ℚ) * 2 ^ k = (b.m * 2 ^ k : ℕ) := by push_cast; rfl
    rw [hcast, Int.floor_natCast]
    rfl

end Decimal

section

variable {x : Float} {n : ℤ}

/-- The magnitude of a double, which is not negative. -/
def magnitude (x : Float) : ℚ :=
  (Decimal.Binary.ofBits x.toBits).m * (2 : ℚ) ^ (Decimal.Binary.ofBits x.toBits).q

theorem exactValue_eq_magnitude : Decimal.exactValue x =
    if Decimal.isNegativeBits x.toBits then -magnitude x else magnitude x := by
  unfold Decimal.exactValue magnitude
  cases Decimal.isNegativeBits x.toBits <;> simp

theorem floor_magnitude : ((Decimal.Binary.ofBits x.toBits).floor : ℤ) = ⌊magnitude x⌋ :=
  Decimal.Binary.floor_eq _

/-- An integer that is the exact value of a double is what is left of it without a fraction. -/
theorem truncated_eq (h : Decimal.exactValue x = n) : truncated x = n := by
  unfold truncated
  rw [floor_magnitude]
  rw [exactValue_eq_magnitude] at h
  cases hsign : Decimal.isNegativeBits x.toBits
  · rw [hsign] at h
    change magnitude x = n at h
    simp [h]
  · rw [hsign] at h
    change -magnitude x = n at h
    have hmagnitude : magnitude x = (-n : ℤ) := by
      push_cast
      linarith
    rw [hmagnitude, Int.floor_intCast]
    exact neg_neg n

/-- The largest integer that is not above a finite double. -/
theorem floored_eq (h : x.isFinite = true) : floored x = ⌊Decimal.exactValue x⌋ := by
  have hfloored : floored x = if Decimal.isNegativeBits x.toBits && !isIntegral x
      then truncated x - 1 else truncated x := rfl
  rw [hfloored]
  by_cases hint : ∃ n : ℤ, Decimal.exactValue x = n
  · obtain ⟨n, hn⟩ := hint
    have hwhole : isIntegral x = true := isIntegral_iff.mpr ⟨h, n, hn⟩
    rw [hwhole, truncated_eq hn, hn, Int.floor_intCast]
    simp
  · have hfraction : isIntegral x = false :=
      Bool.eq_false_iff.mpr fun hwhole => hint (isIntegral_iff.mp hwhole).2
    have htruncated : truncated x =
        if Decimal.isNegativeBits x.toBits then -⌊magnitude x⌋ else ⌊magnitude x⌋ := by
      rw [truncated, floor_magnitude]
    rw [exactValue_eq_magnitude] at hint ⊢
    rw [hfraction, htruncated]
    cases hsign : Decimal.isNegativeBits x.toBits
    · rfl
    · -- Below zero the floor is one step further, since there is a fraction.
      rw [hsign] at hint
      have hne : (⌊magnitude x⌋ : ℚ) ≠ magnitude x := fun heq => hint ⟨-⌊magnitude x⌋, by
        push_cast
        rw [heq]
        rfl⟩
      have hlow := lt_of_le_of_ne (Int.floor_le (magnitude x)) hne
      have hhigh := Int.lt_floor_add_one (magnitude x)
      symm
      change ⌊-magnitude x⌋ = -⌊magnitude x⌋ - 1
      rw [Int.floor_eq_iff]
      push_cast
      constructor <;> linarith

theorem intBelow_finite_iff (h : x.isFinite = true) :
    (n < floored x ∨ n = floored x ∧ isIntegral x = false) ↔ (n : ℚ) < Decimal.exactValue x := by
  rw [floored_eq h]
  constructor
  · rintro (hlt | ⟨heq, hfraction⟩)
    · calc (n : ℚ) < ⌊Decimal.exactValue x⌋ := Int.cast_lt.mpr hlt
        _ ≤ Decimal.exactValue x := Int.floor_le _
    · refine lt_of_le_of_ne (heq ▸ Int.floor_le _) fun hsame => ?_
      rw [isIntegral_iff.mpr ⟨h, n, hsame.symm⟩] at hfraction
      cases hfraction
  · intro hlt
    rcases Int.lt_or_eq_of_le (Int.le_floor.mpr hlt.le) with hless | heq
    · exact Or.inl hless
    · refine Or.inr ⟨heq, Bool.eq_false_iff.mpr fun hwhole => ?_⟩
      obtain ⟨-, m, hm⟩ := isIntegral_iff.mp hwhole
      rw [hm, Int.floor_intCast] at heq
      rw [hm, heq] at hlt
      exact lt_irrefl _ hlt

end

/-! ## Numbers -/

namespace Number

/-- The place of a number on the extended real line. What is no number has none. -/
noncomputable def level? : Number → Option EReal
  | .int n => some ((n : ℝ) : EReal)
  | .float x => if x.isNaN then none else some (Extended.ofDouble x)

section

variable {x : Float} {n : ℤ}

theorem ofDouble_of_isFinite (h : x.isFinite = true) :
    Extended.ofDouble x = ((Decimal.exactValue x : ℝ) : EReal) := by
  have hnan := Decimal.isNaN_of_isFinite h
  have hinf := Decimal.isInf_of_isFinite h
  unfold Extended.ofDouble
  rw [hnan, hinf]
  rfl

theorem ofDouble_of_isInf (h : x.isInf = true) :
    Extended.ofDouble x = if x < 0.0 then ⊥ else ⊤ := if_pos h

theorem ofDouble_zero : Extended.ofDouble 0.0 = 0 := Extended.zero_eq

theorem intBelow_iff (hnan : x.isNaN = false) :
    intBelow n x = true ↔ ((n : ℝ) : EReal) < Extended.ofDouble x := by
  unfold intBelow
  rw [hnan]
  by_cases hinf : x.isInf = true
  · have hzero : (0.0 : Float) < x ↔ 0 < Extended.ofDouble x := by
      rw [← ofDouble_zero]
      exact float_lt_iff_value (by decide +kernel) hnan
    rw [hinf, if_neg Bool.false_ne_true, if_pos rfl, decide_eq_true_iff, hzero,
      ofDouble_of_isInf hinf]
    split
    · simp
    · simp [EReal.coe_lt_top]
  · have hfinite := Decimal.isFinite_of_not_isInf hnan (by simpa using hinf)
    rw [ofDouble_of_isFinite hfinite, EReal.coe_lt_coe_iff]
    have hcast : ((n : ℝ) < (Decimal.exactValue x : ℝ)) ↔ (n : ℚ) < Decimal.exactValue x := by
      exact_mod_cast Iff.rfl
    rw [hcast, ← intBelow_finite_iff hfinite]
    simp [hinf]

theorem belowInt_iff (hnan : x.isNaN = false) :
    belowInt x n = true ↔ Extended.ofDouble x < ((n : ℝ) : EReal) := by
  unfold belowInt
  rw [hnan]
  by_cases hinf : x.isInf = true
  · rw [hinf, if_neg Bool.false_ne_true, if_pos rfl, decide_eq_true_iff, ofDouble_of_isInf hinf]
    split
    · rename_i hneg
      exact iff_of_true hneg (EReal.bot_lt_coe _)
    · rename_i hneg
      exact iff_of_false hneg (by simp)
  · have hfinite := Decimal.isFinite_of_not_isInf hnan (by simpa using hinf)
    rw [ofDouble_of_isFinite hfinite, EReal.coe_lt_coe_iff]
    have hcast : ((Decimal.exactValue x : ℝ) < (n : ℝ)) ↔ Decimal.exactValue x < (n : ℚ) := by
      exact_mod_cast Iff.rfl
    rw [hcast, ← Int.floor_lt, ← floored_eq hfinite]
    simp [hinf]

end

theorem level?_of_isNaN {x : Float} (h : x.isNaN = true) : (float x).level? = none := if_pos h

theorem level?_of_not_isNaN {x : Float} (h : x.isNaN = false) :
    (float x).level? = some (Extended.ofDouble x) :=
  if_neg (Bool.eq_false_iff.mp h)

/-- Numbers are compared by their places, without any rounding. -/
theorem lt_iff {a b : Number} :
    a.lt b = true ↔ ∃ x y, a.level? = some x ∧ b.level? = some y ∧ x < y := by
  rcases a with m | x <;> rcases b with n | y
  · simp [lt, level?]
  · change intBelow m y = true ↔ _
    by_cases hy : y.isNaN = true
    · refine iff_of_false ?_ (by simp [level?_of_isNaN hy])
      rw [intBelow, if_pos hy]
      exact Bool.false_ne_true
    · rw [Bool.not_eq_true] at hy
      rw [intBelow_iff hy, level?_of_not_isNaN hy]
      simp [level?]
  · change belowInt x n = true ↔ _
    by_cases hx : x.isNaN = true
    · refine iff_of_false ?_ (by simp [level?_of_isNaN hx])
      rw [belowInt, if_pos hx]
      exact Bool.false_ne_true
    · rw [Bool.not_eq_true] at hx
      rw [belowInt_iff hx, level?_of_not_isNaN hx]
      simp [level?]
  · change decide (x < y) = true ↔ _
    rw [decide_eq_true_iff]
    by_cases hx : x.isNaN = true
    · exact iff_of_false (not_lt_of_isNaN hx).2 (by simp [level?_of_isNaN hx])
    · by_cases hy : y.isNaN = true
      · exact iff_of_false (not_lt_of_isNaN hy).1 (by simp [level?_of_isNaN hy])
      · rw [Bool.not_eq_true] at hx hy
        rw [float_lt_iff_value hx hy, level?_of_not_isNaN hx, level?_of_not_isNaN hy]
        simp

/-- The first number is not above the second one. -/
def Le (a b : Number) : Prop := ∃ x y, a.level? = some x ∧ b.level? = some y ∧ x ≤ y

/-- A number that is none. -/
def IsNaN (a : Number) : Prop := a.level? = none

/-- A number that is not below another is at least as large, unless one of them is none. -/
theorem lt_eq_false_iff {a b : Number} : a.lt b = false ↔ b.Le a ∨ a.IsNaN ∨ b.IsNaN := by
  rw [← Bool.not_eq_true, lt_iff]
  unfold Le IsNaN
  cases a.level? <;> cases b.level? <;> simp

end Number

end EnergyGraph
