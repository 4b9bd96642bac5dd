-- Doubles as numbers. A finite double has an exact value, an integer times a power of two,
-- and doubles that are numbers are in order, one way or the other.
import EnergyGraph.Decimal.Binary
import Mathlib.Algebra.Field.Rat
import Mathlib.Tactic.FieldSimp

namespace EnergyGraph

/-! ## Doubles in order -/

section

open Float.Model (UnpackedFloat)

theorem compare_swap (a b : UnpackedFloat) : b.compare a = (a.compare b).map Ordering.swap := by
  rcases a with s | _ | s | ⟨s, m, e, _⟩ <;> rcases b with t | _ | t | ⟨t, n, f, _⟩ <;>
    (try cases s) <;> (try cases t) <;> dsimp only [UnpackedFloat.compare] <;>
    simp [Ordering.swap_then, Nat.compare_swap, Int.compare_swap] <;> rfl

theorem compare_isSome {a b : UnpackedFloat} (ha : a ≠ .notANumber) (hb : b ≠ .notANumber) :
    (a.compare b).isSome = true := by
  rcases a with s | _ | s | ⟨s, m, e, _⟩ <;> rcases b with t | _ | t | ⟨t, n, f, _⟩ <;>
    (try cases s) <;> (try cases t) <;> first | exact absurd rfl ha | exact absurd rfl hb | rfl

theorem compare_notANumber (a : UnpackedFloat) : a.compare .notANumber = none := by
  rcases a with s | _ | s | ⟨s, m, e, _⟩ <;> rfl

variable {a b : Float}

theorem float_lt_iff : a < b ↔ a.toModel.unpack.compare b.toModel.unpack = some .lt := by
  change a.lt b = true ↔ _
  simp [Float.lt, LT.lt, Float.Model.lt, UnpackedFloat.lt]

theorem float_le_iff :
    a ≤ b ↔ (a.toModel.unpack.compare b.toModel.unpack).any (·.isLE) = true := by
  change a.le b = true ↔ _
  unfold Float.le
  rw [decide_eq_true_iff]
  rfl

theorem float_beq_iff : (a == b) = true ↔ a.toModel.unpack.compare b.toModel.unpack = some .eq := by
  change (a.toModel.unpack.compare b.toModel.unpack == some .eq) = true ↔ _
  exact beq_iff_eq

theorem unpack_ne (h : a.isNaN = false) : a.toModel.unpack ≠ .notANumber := by
  intro hn
  rw [Float.isNaN, Float.Model.isNaN, hn] at h
  cases h

theorem unpack_eq (h : a.isNaN = true) : a.toModel.unpack = .notANumber := by
  rw [Float.isNaN, Float.Model.isNaN] at h
  unfold UnpackedFloat.isNaN at h
  split at h
  · assumption
  · cases h

/-- Numbers are in order, one way or the other. -/
theorem lt_iff_not_le (ha : a.isNaN = false) (hb : b.isNaN = false) : a < b ↔ ¬ b ≤ a := by
  rw [float_lt_iff, float_le_iff, compare_swap a.toModel.unpack b.toModel.unpack]
  obtain ⟨o, ho⟩ := Option.isSome_iff_exists.mp (compare_isSome (unpack_ne ha) (unpack_ne hb))
  rw [ho]
  cases o <;> simp

/-- Numbers that are not in order either way are equal. -/
theorem lt_of_not_lt (ha : a.isNaN = false) (hb : b.isNaN = false) (hlt : ¬ a < b)
    (heq : (a == b) = false) : b < a := by
  rw [float_lt_iff, compare_swap a.toModel.unpack b.toModel.unpack]
  rw [float_lt_iff] at hlt
  rw [← Bool.not_eq_true, float_beq_iff] at heq
  obtain ⟨o, ho⟩ := Option.isSome_iff_exists.mp (compare_isSome (unpack_ne ha) (unpack_ne hb))
  rw [ho] at hlt heq ⊢
  cases o with
  | lt => exact absurd rfl hlt
  | eq => exact absurd rfl heq
  | gt => rfl

/-- Nothing lies on a side of what is no number. -/
theorem not_lt_of_isNaN (hb : b.isNaN = true) : ¬ a < b ∧ ¬ b < a := by
  rw [float_lt_iff, float_lt_iff, compare_swap a.toModel.unpack b.toModel.unpack, unpack_eq hb,
    compare_notANumber]
  simp

end

/-! ## Exact values -/

namespace Decimal

/-- The value of a double, exactly. -/
def exactValue (x : Float) : Rat :=
  let b := Binary.ofBits x.toBits
  (if isNegativeBits x.toBits then -1 else 1) * b.m * (2 : Rat) ^ b.q

/-- The sign makes no difference to what is an integer. -/
theorem isInteger_signed {r : Rat} {negative : Bool} :
    (∃ n : Int, (if negative then -1 else 1) * r = n) ↔ ∃ n : Int, r = n := by
  cases negative
  · simp
  · constructor
    · rintro ⟨n, hn⟩
      exact ⟨-n, by rw [Int.cast_neg, ← hn]; simp⟩
    · rintro ⟨n, rfl⟩
      exact ⟨-n, by simp⟩

theorem Binary.isIntegral_iff {b : Binary} :
    b.isIntegral = true ↔ ∃ n : Int, (b.m : Rat) * (2 : Rat) ^ b.q = n := by
  unfold isIntegral
  rcases Int.lt_or_le b.q 0 with hneg | hpos
  · obtain ⟨k, hk⟩ : ∃ k : Nat, b.q = -(k : Int) := ⟨b.q.natAbs, by omega⟩
    have hlt : ¬ (0 : Int) ≤ -(k : Int) := by omega
    have htwo : (2 : Rat) ^ k ≠ 0 := pow_ne_zero k (by norm_num)
    have hquotient (n : Int) : (b.m : Rat) * ((2 : Rat) ^ k)⁻¹ = n ↔ (b.m : Int) = 2 ^ k * n := by
      rw [← div_eq_mul_inv, div_eq_iff htwo, mul_comm (2 ^ k) n]
      exact_mod_cast Iff.rfl
    simp only [hk, hlt, decide_false, Bool.false_or, beq_iff_eq, Int.neg_neg, Int.toNat_natCast,
      zpow_neg, zpow_natCast, hquotient]
    rw [← Nat.dvd_iff_mod_eq_zero, ← Int.natCast_dvd_natCast]
    simp [Dvd.dvd]
  · obtain ⟨k, hk⟩ : ∃ k : Nat, b.q = k := ⟨b.q.toNat, by omega⟩
    simp only [hpos, decide_true, Bool.true_or, true_iff]
    exact ⟨b.m * 2 ^ k, by rw [hk, zpow_natCast]; push_cast; rfl⟩

end Decimal

/-- A finite double without a fractional part. -/
def IsInteger (x : Float) : Prop := x.isFinite = true ∧ ∃ n : Int, Decimal.exactValue x = n

theorem isIntegral_iff {x : Float} : isIntegral x = true ↔ IsInteger x := by
  unfold isIntegral IsInteger Decimal.exactValue
  rw [Bool.and_eq_true, Decimal.Binary.isIntegral_iff]
  refine and_congr_right fun _ => ?_
  dsimp only
  rw [mul_assoc]
  exact Decimal.isInteger_signed.symm

end EnergyGraph
