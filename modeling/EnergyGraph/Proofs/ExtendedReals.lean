-- Exact arithmetic with infinities. A log-sum-exp starts from an exponent below all others,
-- which no real number is, so that laws about all kinds of aggregation are laws of the
-- extended reals. Their operations are those of the reals, and no sum is rounded; opposite
-- infinities, which no exact sum of real numbers has, add up to the lower one.
import Mathlib.Analysis.SpecialFunctions.Log.ENNRealLogExp
import EnergyGraph.Audit.Verify
import EnergyGraph.Proofs.Exact

namespace EnergyGraph

namespace Extended

/-- A function of real numbers; an infinity counts as zero. -/
noncomputable def onReals (f : ℝ → ℝ) (a : EReal) : EReal := (f a.toReal : ℝ)

/-- A double as an extended real. What is no number counts as zero. -/
noncomputable def ofDouble (x : Float) : EReal :=
  if x.isInf then if x < 0.0 then ⊥ else ⊤
  else if x.isNaN then 0
  else ((Decimal.exactValue x : ℚ) : ℝ)

end Extended

open Classical in
/-- The operations of the extended reals. As with the reals, messages tell of none. -/
noncomputable instance : Scalar EReal where
  ofFloat := Extended.ofDouble
  ofInt? n := some ((n : ℝ) : EReal)
  abs a := max a (-a)
  sqrt a := if a = ⊤ then ⊤ else Extended.onReals Real.sqrt a
  exp a := (EReal.exp a : EReal)
  log a := ENNReal.log a.toENNReal
  sin := Extended.onReals Real.sin
  cos := Extended.onReals Real.cos
  tan := Extended.onReals Real.tan
  pow a b := ((a.toReal ^ b.toReal : ℝ) : EReal)
  eq a b := decide (a = b)
  lt a b := decide (a < b)
  isFinite a := decide (a ≠ ⊤ ∧ a ≠ ⊥)
  isInfinite a := decide (a = ⊤ ∨ a = ⊥)
  isIntegral a := decide (∃ n : ℤ, a = ((n : ℝ) : EReal))
  floor? a := if a = ⊤ ∨ a = ⊥ then none else some ⌊a.toReal⌋
  exactSum as := .ok as.sum
  value _ := .null

namespace Extended

theorem zero_eq : (Scalar.zero : EReal) = 0 := by
  change ofDouble 0.0 = 0
  have hinf : (0.0 : Float).isInf = false := by decide
  have hnan : (0.0 : Float).isNaN = false := by decide
  rw [ofDouble, hinf, hnan]
  simp [Exact.exactValue_zero]

theorem negativeInfinity_eq : (Aggregator.negativeInfinity : EReal) = ⊥ := by
  change ofDouble (-(1.0 / 0.0)) = ⊥
  have hinf : (-(1.0 / 0.0) : Float).isInf = true := by decide
  have hlt : (-(1.0 / 0.0) : Float) < 0.0 := by decide
  rw [ofDouble, hinf]
  simp [hlt]

theorem one_eq : (Scalar.one : EReal) = 1 := by
  change ofDouble 1.0 = 1
  have hinf : (1.0 : Float).isInf = false := by decide
  have hnan : (1.0 : Float).isNaN = false := by decide
  rw [ofDouble, hinf, hnan]
  simp [Exact.exactValue_one]

/-! ## Comparisons -/

theorem eq_iff {a b : EReal} : Scalar.eq a b = true ↔ a = b := decide_eq_true_iff

theorem lt_iff {a b : EReal} : Scalar.lt a b = true ↔ a < b := decide_eq_true_iff

theorem isDefined_eq (a : EReal) : Scalar.isDefined a = true := eq_iff.mpr rfl

theorem larger_eq_max (a b : EReal) : Scalar.larger a b = max a b := by
  unfold Scalar.larger
  by_cases h : a < b
  · rw [if_pos (lt_iff.mpr h), max_eq_right h.le]
  · rw [if_neg (mt lt_iff.mp h), max_eq_left (not_lt.mp h)]

/-- No tolerance makes a value differ from itself. -/
theorem isClose_self (t : Audit.Tolerance EReal) (hr : 0 ≤ t.relative) (ha : 0 ≤ t.absolute)
    (a : EReal) : Audit.isClose t a a = .ok true := by
  have hself : Scalar.eq a a = true := eq_iff.mpr rfl
  have hr' : Scalar.lt t.relative 0 = false := decide_eq_false hr.not_gt
  have ha' : Scalar.lt t.absolute 0 = false := decide_eq_false ha.not_gt
  unfold Audit.isClose Audit.isNear
  rw [zero_eq, hself, hr', ha']
  simp

theorem compareValues_self {t : Audit.Tolerance EReal} (hr : 0 ≤ t.relative) (ha : 0 ≤ t.absolute)
    (level : Audit.Level) (id : String) (a : EReal) :
    Audit.compareValues t level id a a = .ok [] := by
  unfold Audit.compareValues
  rw [isClose_self t hr ha]
  rfl

/-! ## Sums -/

theorem foldl_add (xs : List EReal) (a : EReal) : xs.foldl (· + ·) a = a + xs.sum := by
  induction xs generalizing a with
  | nil => rw [List.foldl_nil, List.sum_nil, add_zero]
  | cons x xs ih => rw [List.foldl_cons, ih, List.sum_cons, add_assoc]

theorem addRows_sum (lanes values : List EReal) (hlanes : lanes.length = Summation.laneCount) :
    (Summation.addRows lanes values).1.length = Summation.laneCount ∧
      (Summation.addRows lanes values).1.sum + (Summation.addRows lanes values).2.sum =
        lanes.sum + values.sum := by
  fun_induction Summation.addRows lanes values with
  | case1 lanes values h ih =>
    have htake : (values.take Summation.laneCount).length = Summation.laneCount :=
      List.length_take_of_le h
    have hrow : (List.zipWith (· + ·) lanes (values.take Summation.laneCount)).sum =
        lanes.sum + (values.take Summation.laneCount).sum :=
      (List.sum_add_sum_eq_sum_zipWith_of_length_eq _ _ (hlanes.trans htake.symm)).symm
    obtain ⟨hlength, hsum⟩ := ih (by rw [List.length_zipWith, hlanes, htake, Nat.min_self])
    refine ⟨hlength, hsum.trans ?_⟩
    rw [hrow, add_assoc, ← List.sum_append, List.take_append_drop]
  | case2 lanes values h => exact ⟨hlanes, rfl⟩

theorem addNeighbours_sum (xs : List EReal) : (Summation.addNeighbours xs).sum = xs.sum := by
  fun_induction Summation.addNeighbours xs with
  | case1 a b rest ih => rw [List.sum_cons, ih, List.sum_cons, List.sum_cons, add_assoc]
  | case2 rest _ => rfl

theorem addNeighbours_length {α : Type} [Scalar α] (xs : List α) :
    (Summation.addNeighbours xs).length = (xs.length + 1) / 2 := by
  fun_induction Summation.addNeighbours xs with
  | case1 a b rest ih =>
    rw [List.length_cons, ih, List.length_cons, List.length_cons]
    omega
  | case2 rest h =>
    rcases rest with _ | ⟨a, _ | ⟨b, rest⟩⟩
    · simp
    · simp
    · exact absurd rfl (h a b rest)

theorem headD_of_length {xs : List EReal} (h : xs.length = 1) : xs.headD 0 = xs.sum := by
  obtain ⟨x, rfl⟩ := List.length_eq_one_iff.mp h
  rw [List.headD_cons, List.sum_singleton]

theorem blockSum_eq (values : List EReal) : Summation.blockSum values = values.sum := by
  unfold Summation.blockSum
  split
  · rw [zero_eq, foldl_add, zero_add]
  · rename_i hlong
    have hlanes : (values.take Summation.laneCount).length = Summation.laneCount :=
      List.length_take_of_le (Nat.le_of_not_lt hlong)
    have hrows := addRows_sum _ (values.drop Summation.laneCount) hlanes
    generalize Summation.addRows (values.take Summation.laneCount)
      (values.drop Summation.laneCount) = rows at hrows
    obtain ⟨lanes, rest⟩ := rows
    obtain ⟨hlength, hsum⟩ := hrows
    have hone : (Summation.addNeighbours (Summation.addNeighbours
        (Summation.addNeighbours lanes))).length = 1 := by
      rw [addNeighbours_length, addNeighbours_length, addNeighbours_length, hlength]
      rfl
    dsimp only
    rw [foldl_add, zero_eq, headD_of_length hone, addNeighbours_sum, addNeighbours_sum,
      addNeighbours_sum, hsum, ← List.sum_append, List.take_append_drop]

theorem cutSum_eq (values : List EReal) : Summation.cutSum values = values.sum := by
  fun_induction Summation.cutSum values with
  | case1 values h => exact blockSum_eq values
  | case2 values h half cut ihtake ihdrop =>
    rw [ihtake, ihdrop, ← List.sum_append, List.take_append_drop]

/-- Lanes and cuts matter to roundings only. -/
theorem total_eq (values : List EReal) : Summation.total values = values.sum := by
  unfold Summation.total
  rw [cutSum_eq, zero_eq, zero_add]

theorem sumOf_eq (cs : List (Audit.Contribution EReal)) :
    cs.foldl (fun acc c => acc + c.weighted) Scalar.zero = (cs.map (·.weighted)).sum := by
  rw [zero_eq, ← zero_add (List.sum _), ← foldl_add, List.foldl_map]

end Extended

end EnergyGraph
