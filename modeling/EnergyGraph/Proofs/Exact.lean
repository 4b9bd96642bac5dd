-- Exact arithmetic. The operations that energies are computed with are also those of the
-- real numbers, where no sum is rounded and none is too large. What is said of doubles up
-- to roundings is said of real numbers without.
import EnergyGraph.Audit.Verify
import EnergyGraph.Proofs.Doubles
import Mathlib.Analysis.SpecialFunctions.Pow.Real
import Mathlib.Analysis.SpecialFunctions.Trigonometric.Basic

namespace EnergyGraph

open Classical in
/-- The operations of the real numbers. No document holds a real number, so that messages
tell of none. -/
noncomputable instance : Scalar ℝ where
  ofFloat x := (Decimal.exactValue x : ℚ)
  ofInt? n := some n
  abs a := |a|
  sqrt := Real.sqrt
  exp := Real.exp
  log := Real.log
  sin := Real.sin
  cos := Real.cos
  tan := Real.tan
  pow a b := a ^ b
  eq a b := decide (a = b)
  lt a b := decide (a < b)
  isFinite _ := true
  isInfinite _ := false
  isIntegral a := decide (∃ n : ℤ, a = n)
  floor? a := some ⌊a⌋
  exactSum as := .ok as.sum
  value _ := .null

namespace Exact

theorem exactValue_zero : Decimal.exactValue 0.0 = 0 := by
  have hm : (Decimal.Binary.ofBits (0.0 : Float).toBits).m = 0 := by decide
  unfold Decimal.exactValue
  dsimp only
  rw [hm]
  simp

theorem zero_eq : (Scalar.zero : ℝ) = 0 := by
  change ((Decimal.exactValue 0.0 : ℚ) : ℝ) = 0
  rw [exactValue_zero, Rat.cast_zero]

theorem exactValue_one : Decimal.exactValue 1.0 = 1 := by
  have hm : (Decimal.Binary.ofBits (1.0 : Float).toBits).m = 2 ^ 52 := by decide
  have hq : (Decimal.Binary.ofBits (1.0 : Float).toBits).q = -52 := by decide
  have hs : Decimal.isNegativeBits (1.0 : Float).toBits = false := by decide
  unfold Decimal.exactValue
  dsimp only
  rw [hm, hq, hs]
  norm_num

theorem one_eq : (Scalar.one : ℝ) = 1 := by
  change ((Decimal.exactValue 1.0 : ℚ) : ℝ) = 1
  rw [exactValue_one, Rat.cast_one]

theorem lt_iff {a b : ℝ} : Scalar.lt a b = true ↔ a < b := decide_eq_true_iff

theorem isDefined_eq (a : ℝ) : Scalar.isDefined a = true := decide_eq_true rfl

theorem foldl_add (values : List ℝ) (a : ℝ) : values.foldl (· + ·) a = a + values.sum := by
  induction values generalizing a with
  | nil => rw [List.foldl_nil, List.sum_nil, add_zero]
  | cons v values ih => rw [List.foldl_cons, ih, List.sum_cons, add_assoc]

/-- Without tolerances only equal values are close. -/
theorem isClose_eq (a b : ℝ) : Audit.isClose ⟨0, 0⟩ a b = .ok (decide (a = b)) := by
  have hapart : |b - a| ≤ 0 ↔ a = b := by rw [abs_nonpos_iff, sub_eq_zero, eq_comm]
  have hle : Scalar.le (Scalar.abs (b - a)) 0 = decide (a = b) := by
    change (decide (|b - a| < 0) || decide (|b - a| = 0)) = decide (a = b)
    rw [← Bool.decide_or, decide_eq_decide, ← hapart, le_iff_lt_or_eq]
  have hzero (c : ℝ) : Scalar.abs ((0 : ℝ) * c) = 0 := by
    change |0 * c| = 0
    rw [zero_mul, abs_zero]
  unfold Audit.isClose Audit.isNear
  simp only [zero_eq, hzero, hle]
  simp [Scalar.isInfinite, Scalar.lt, Scalar.eq]

theorem compareValues_eq_nil {level : Audit.Level} {id : String} {a b : ℝ} :
    Audit.compareValues ⟨0, 0⟩ level id a b = .ok [] ↔ a = b := by
  unfold Audit.compareValues
  rw [isClose_eq]
  by_cases h : a = b
  · simp [h, bind, Except.bind]
  · simp [h, bind, Except.bind]

end Exact

end EnergyGraph
