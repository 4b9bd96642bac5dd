-- A log-sum-exp pushed value by value holds the largest exponent so far and the sum of the
-- exponentials relative to it. Relative to the largest, no exponent is positive: of real values
-- the sum lies between one and their number, and the result between the largest exponent and
-- that much more than it. A number that keeps the arguments of the exponentials behind it tells
-- that none of them was positive on the way either.
import EnergyGraph.Proofs.ReplayedAggregates

namespace EnergyGraph

/-! ## Numbers that keep their exponents -/

/-- A number, and the arguments of all exponentials that were taken on the way to it. -/
structure Recorded (α : Type) where
  value : α
  exponents : List α

namespace Recorded

variable {α : Type}

/-- A number that no exponential led to. -/
def plain (x : α) : Recorded α := ⟨x, []⟩

def map (f : α → α) (a : Recorded α) : Recorded α := ⟨f a.value, a.exponents⟩

def map₂ (f : α → α → α) (a b : Recorded α) : Recorded α :=
  ⟨f a.value b.value, a.exponents ++ b.exponents⟩

/-- The operations of the values; only `exp` adds to what is kept. -/
instance [Scalar α] : Scalar (Recorded α) where
  add := map₂ (· + ·)
  sub := map₂ (· - ·)
  mul := map₂ (· * ·)
  div := map₂ (· / ·)
  neg := map (- ·)
  ofFloat x := plain (Scalar.ofFloat x)
  ofInt? n := (Scalar.ofInt? n).map plain
  abs := map Scalar.abs
  sqrt := map Scalar.sqrt
  exp a := ⟨Scalar.exp a.value, a.value :: a.exponents⟩
  log := map Scalar.log
  sin := map Scalar.sin
  cos := map Scalar.cos
  tan := map Scalar.tan
  pow := map₂ Scalar.pow
  eq a b := Scalar.eq a.value b.value
  lt a b := Scalar.lt a.value b.value
  isFinite a := Scalar.isFinite a.value
  isInfinite a := Scalar.isInfinite a.value
  isIntegral a := Scalar.isIntegral a.value
  floor? a := Scalar.floor? a.value
  exactSum as := (Scalar.exactSum (as.map value)).map fun s => ⟨s, as.flatMap exponents⟩
  value a := Scalar.value a.value

theorem lt_eq [Scalar α] (a b : Recorded α) : Scalar.lt a b = Scalar.lt a.value b.value := rfl

theorem eq_eq [Scalar α] (a b : Recorded α) : Scalar.eq a b = Scalar.eq a.value b.value := rfl

theorem value_negativeInfinity [Scalar α] :
    (Aggregator.negativeInfinity : Recorded α).value = Aggregator.negativeInfinity := rfl

/-- No exponential of a positive number led here. -/
def NonPositive (a : Recorded EReal) : Prop := ∀ y ∈ a.exponents, y ≤ 0

variable {a b : Recorded EReal}

theorem nonPositive_plain (x : EReal) : (plain x).NonPositive := fun _ h => nomatch h

theorem NonPositive.map (ha : a.NonPositive) (f : EReal → EReal) : (a.map f).NonPositive := ha

theorem NonPositive.map₂ (ha : a.NonPositive) (hb : b.NonPositive) (f : EReal → EReal → EReal) :
    (a.map₂ f b).NonPositive := by
  intro y hy
  rcases List.mem_append.mp hy with hy | hy
  · exact ha y hy
  · exact hb y hy

theorem NonPositive.exp (ha : a.NonPositive) (hle : a.value ≤ 0) :
    (Scalar.exp a : Recorded EReal).NonPositive := by
  intro y hy
  rcases List.mem_cons.mp hy with rfl | hy
  · exact hle
  · exact ha y hy

end Recorded

namespace Aggregator

open Recorded (plain)

/-- What is kept does not change what is computed. -/
theorem value_pushExponent {α : Type} [Scalar α] (y shift scaled : Recorded α) :
    ((Accumulator.pushExponent y shift scaled).1.value,
      (Accumulator.pushExponent y shift scaled).2.value) =
      Accumulator.pushExponent y.value shift.value scaled.value := by
  unfold Accumulator.pushExponent
  rw [Recorded.lt_eq, Recorded.eq_eq, Recorded.eq_eq, Recorded.value_negativeInfinity]
  split_ifs <;> rfl

/-- Only a difference to the larger of two exponents is exponentiated. -/
theorem nonPositive_pushExponent {y shift scaled : Recorded EReal} (hy : y.NonPositive)
    (hshift : shift.NonPositive) (hscaled : scaled.NonPositive) :
    (Accumulator.pushExponent y shift scaled).1.NonPositive ∧
      (Accumulator.pushExponent y shift scaled).2.NonPositive := by
  have hone : (Scalar.one : Recorded EReal).NonPositive := Recorded.nonPositive_plain _
  unfold Accumulator.pushExponent
  rw [Recorded.lt_eq, Recorded.eq_eq, Recorded.eq_eq]
  by_cases habove : shift.value < y.value
  · rw [if_pos (Extended.lt_iff.mpr habove)]
    have hexp : (Scalar.exp (shift - y) : Recorded EReal).NonPositive :=
      (hshift.map₂ hy _).exp (EReal.sub_nonpos.mpr habove.le)
    exact ⟨hy, (hscaled.map₂ hexp _).map₂ hone _⟩
  rw [if_neg (mt Extended.lt_iff.mp habove)]
  by_cases hequal : y.value = shift.value
  · rw [if_pos (Extended.eq_iff.mpr hequal)]
    exact ⟨hshift, hscaled.map₂ hone _⟩
  rw [if_neg (mt Extended.eq_iff.mp hequal)]
  split_ifs
  · exact ⟨hshift, hscaled⟩
  · have hexp : (Scalar.exp (y - shift) : Recorded EReal).NonPositive :=
      (hy.map₂ hshift _).exp (EReal.sub_nonpos.mpr (not_lt.mp habove))
    exact ⟨hshift, hscaled.map₂ hexp _⟩

/-- Two accumulators of a log-sum-exp, of which the second one keeps the exponents, none of
them positive. -/
inductive Keeps : Accumulator EReal → Accumulator (Recorded EReal) → Prop
  | logsumexp (beta : EReal) (n : Nat) {shift scaled : Recorded EReal}
      (shift_nonPositive : shift.NonPositive) (scaled_nonPositive : scaled.NonPositive) :
    Keeps (.logsumexp beta n shift.value scaled.value) (.logsumexp (plain beta) n shift scaled)

variable {acc : Accumulator EReal} {kept : Accumulator (Recorded EReal)}

theorem keeps_start (beta alpha : EReal) :
    Keeps (start ⟨.logsumexp, beta, alpha⟩) (start ⟨.logsumexp, plain beta, plain alpha⟩) :=
  .logsumexp beta 0 (Recorded.nonPositive_plain _) (Recorded.nonPositive_plain _)

theorem Keeps.push (h : Keeps acc kept) (x : EReal) : Keeps (acc.push x) (kept.push (plain x)) := by
  cases h with
  | @logsumexp beta n shift scaled hshift hscaled =>
    have hvalue := value_pushExponent (plain beta * plain x) shift scaled
    have hkept := nonPositive_pushExponent
      ((Recorded.nonPositive_plain beta).map₂ (Recorded.nonPositive_plain x) (· * ·)) hshift hscaled
    have hproduct : (plain beta * plain x).value = beta * x := rfl
    rw [hproduct] at hvalue
    unfold Accumulator.push
    dsimp only
    rw [← hvalue]
    exact .logsumexp beta (n + 1) hkept.1 hkept.2

theorem Keeps.foldl (h : Keeps acc kept) (values : List EReal) :
    Keeps (values.foldl Accumulator.push acc) ((values.map plain).foldl Accumulator.push kept) := by
  induction values generalizing acc kept with
  | nil => exact h
  | cons x values ih => exact ih (h.push x)

/-- The recorded result is the result, and no exponential of a positive number led to it. -/
theorem Keeps.result (h : Keeps acc kept) {x : EReal} (hx : acc.result = .ok x) :
    ∃ exponents, kept.result = .ok ⟨x, exponents⟩ ∧ ∀ y ∈ exponents, y ≤ 0 := by
  cases h with
  | @logsumexp beta n shift scaled hshift hscaled =>
    have hbeta := Recorded.nonPositive_plain beta
    unfold Accumulator.result at hx ⊢
    dsimp only at hx ⊢
    rw [Recorded.eq_eq, Recorded.value_negativeInfinity]
    split_ifs at hx ⊢
    · cases hx
    · cases hx
      exact ⟨_, rfl, (Recorded.nonPositive_plain _).map₂ hbeta (· / ·)⟩
    · cases hx
      exact ⟨_, rfl, (hshift.map₂ (hscaled.map Scalar.log) (· + ·)).map₂ hbeta (· / ·)⟩

/-! ## Sums of exponentials of real numbers -/

/-- Real numbers among the extended ones. -/
noncomputable def extended (values : List ℝ) : List EReal := values.map fun t : ℝ => (t : EReal)

theorem extended_concat (values : List ℝ) (t : ℝ) :
    extended (values ++ [t]) = extended values ++ [(t : EReal)] := List.map_append

/-- What a log-sum-exp holds of real values: the largest exponent, and the sum of the
exponentials relative to it. -/
structure Shifted (beta : ℝ) (values : List ℝ) (shift scaled : ℝ) : Prop where
  greatest : IsGreatest {y | ∃ t ∈ values, y = beta * t} shift
  scaled_eq : scaled = (values.map fun t => Real.exp (beta * t - shift)).sum
  one_le : 1 ≤ scaled
  le_length : scaled ≤ values.length

variable {beta shift scaled : ℝ} {values : List ℝ}

/-- The largest of real exponents is one of them. -/
theorem largestExponent_extended (beta : ℝ) (h : values ≠ []) :
    ∃ shift : ℝ, largestExponent (extended (values.map (beta * ·))) = shift ∧
      IsGreatest {y | ∃ t ∈ values, y = beta * t} shift := by
  induction values using List.reverseRecOn with
  | nil => exact absurd rfl h
  | append_singleton values t ih =>
    rw [List.map_append, List.map_singleton, extended_concat, largestExponent_concat]
    by_cases hnil : values = []
    · subst hnil
      refine ⟨beta * t, max_eq_right bot_le, ⟨t, List.mem_singleton_self t, rfl⟩, ?_⟩
      rintro y ⟨u, hu, rfl⟩
      rw [List.mem_singleton.mp hu]
    obtain ⟨shift, heq, ⟨u, hu, hshift⟩, hle⟩ := ih hnil
    rw [heq]
    have hmem (y : ℝ) : (∃ v ∈ values ++ [t], y = beta * v) ↔
        (∃ v ∈ values, y = beta * v) ∨ y = beta * t := by
      simp [or_and_right, exists_or]
    refine ⟨max shift (beta * t), (EReal.coe_strictMono.monotone.map_max).symm, ?_, ?_⟩
    · refine (hmem _).mpr ?_
      rcases max_choice shift (beta * t) with hmax | hmax
      · exact .inl ⟨u, hu, hmax.trans hshift⟩
      · exact .inr hmax
    · rintro y hy
      rcases (hmem y).mp hy with hy | rfl
      · exact (hle hy).trans (le_max_left _ _)
      · exact le_max_right _ _

theorem sumExp_extended (shift : ℝ) (ys : List ℝ) :
    (sumExp shift (extended ys) : EReal) = ((ys.map fun y => Real.exp (y - shift)).sum : ℝ) := by
  induction ys with
  | nil => rfl
  | cons y ys ih =>
    have hexp : (EReal.exp ((y : EReal) - shift) : EReal) = (Real.exp (y - shift) : ℝ) := by
      rw [← EReal.coe_sub, EReal.exp_coe, EReal.coe_ennreal_ofReal, max_eq_left (Real.exp_nonneg _)]
    have hcons : sumExp shift (extended (y :: ys)) =
        EReal.exp ((y : EReal) - shift) + sumExp shift (extended ys) := rfl
    rw [hcons, EReal.coe_ennreal_add, hexp, ih, ← EReal.coe_add, List.map_cons, List.sum_cons]

/-- The largest exponent counts as one, and no exponent counts as more. -/
theorem shifted_of_greatest (h : IsGreatest {y | ∃ t ∈ values, y = beta * t} shift) :
    Shifted beta values shift (values.map fun t => Real.exp (beta * t - shift)).sum where
  greatest := h
  scaled_eq := rfl
  one_le := by
    obtain ⟨t, ht, hshift⟩ := h.1
    refine List.single_le_sum (fun x hx => ?_) 1 (List.mem_map.mpr ⟨t, ht, ?_⟩)
    · obtain ⟨u, -, rfl⟩ := List.mem_map.mp hx
      exact Real.exp_nonneg _
    · rw [hshift, sub_self, Real.exp_zero]
  le_length := by
    have hle := List.sum_le_card_nsmul (values.map fun t => Real.exp (beta * t - shift)) 1 <| by
      intro x hx
      obtain ⟨t, ht, rfl⟩ := List.mem_map.mp hx
      exact Real.exp_le_one_iff.mpr (sub_nonpos.mpr (h.2 ⟨t, ht, rfl⟩))
    rwa [List.length_map, nsmul_one] at hle

/-- The shift drops out of the logarithm of the sum. -/
theorem Shifted.log_eq (h : Shifted beta values shift scaled) :
    shift + Real.log scaled = Real.log (values.map fun t => Real.exp (beta * t)).sum := by
  have hsum : (values.map fun t => Real.exp (beta * t)).sum = Real.exp shift * scaled := by
    rw [h.scaled_eq, ← List.sum_map_mul_left]
    refine congrArg List.sum (List.map_congr_left fun t _ => ?_)
    rw [← Real.exp_add, add_sub_cancel]
  have hpos : 0 < scaled := zero_lt_one.trans_le h.one_le
  rw [hsum, Real.log_mul (Real.exp_ne_zero _) hpos.ne', Real.log_exp]

theorem Shifted.log_nonneg (h : Shifted beta values shift scaled) : 0 ≤ Real.log scaled :=
  Real.log_nonneg h.one_le

theorem Shifted.log_le (h : Shifted beta values shift scaled) :
    Real.log scaled ≤ Real.log values.length :=
  Real.log_le_log (zero_lt_one.trans_le h.one_le) h.le_length

/-! ## The pushes of a log-sum-exp -/

theorem Holds.rescaled {a : Aggregator EReal} {held : List EReal} (h : Holds a held acc)
    (hkind : a.kind = .logsumexp) :
    ∃ shift scaled, acc = .logsumexp a.beta held.length shift scaled ∧
      Rescaled (held.map (a.beta * ·)) shift scaled := by
  cases h with
  | logsumexp _ rescaled => exact ⟨_, _, rfl, rescaled⟩
  | identity kind | sum kind | prod kind | max kind | min kind | mean kind | logprod kind
  | cvar kind => exact nomatch hkind.symm.trans kind

/-- After some real values, at least one, a log-sum-exp holds real numbers. -/
theorem shifted_of_pushes (beta : ℝ) (alpha : EReal) (h : values ≠ []) :
    ∃ shift scaled : ℝ,
      (extended values).foldl Accumulator.push (start ⟨.logsumexp, (beta : EReal), alpha⟩) =
        .logsumexp beta values.length shift scaled ∧ Shifted beta values shift scaled := by
  have hmap : (extended values).map ((beta : EReal) * ·) = extended (values.map (beta * ·)) := by
    unfold extended
    rw [List.map_map, List.map_map]
    rfl
  obtain ⟨top, sum, heq, hrescaled⟩ :=
    (holds_foldl (holds_start ⟨.logsumexp, (beta : EReal), alpha⟩) (extended values)).rescaled rfl
  rw [List.nil_append] at heq hrescaled
  dsimp only at heq hrescaled
  rw [hmap] at hrescaled
  obtain ⟨shift, hlargest, hgreatest⟩ := largestExponent_extended beta h
  obtain rfl : top = shift := hrescaled.shift_eq.trans hlargest
  rw [hrescaled.scaled_eq shift rfl, sumExp_extended, List.map_map, extended,
    List.length_map] at heq
  exact ⟨shift, _, heq, shifted_of_greatest hgreatest⟩

theorem Shifted.result (h : Shifted beta values shift scaled) :
    (Accumulator.logsumexp (beta : EReal) values.length shift scaled).result =
      .ok ((Real.log (values.map fun t => Real.exp (beta * t)).sum / beta : ℝ) : EReal) := by
  obtain ⟨t, ht, -⟩ := h.greatest.1
  have hlength : values.length ≠ 0 := (List.length_pos_of_mem ht).ne'
  have hshift : ¬Scalar.eq (shift : EReal) negativeInfinity := by
    rw [Extended.negativeInfinity_eq, Extended.eq_iff]
    exact EReal.coe_ne_bot shift
  have hlog : Scalar.log (scaled : EReal) = (Real.log scaled : ℝ) := by
    change ENNReal.log (scaled : EReal).toENNReal = _
    rw [EReal.real_coe_toENNReal, ENNReal.log_ofReal_of_pos (zero_lt_one.trans_le h.one_le)]
  unfold Accumulator.result
  dsimp only
  rw [if_neg hlength, if_neg hshift, hlog, ← EReal.coe_add, h.log_eq, EReal.coe_div]

/-- A log-sum-exp of real values is the logarithm of the sum of their exponentials. -/
theorem aggregate_logsumexp (beta : ℝ) (alpha : EReal) (h : values ≠ []) :
    aggregate ⟨.logsumexp, (beta : EReal), alpha⟩ (extended values) =
      .ok ((Real.log (values.map fun t => Real.exp (beta * t)).sum / beta : ℝ) : EReal) := by
  obtain ⟨shift, scaled, heq, hshifted⟩ := shifted_of_pushes beta alpha h
  unfold aggregate
  rw [heq, hshifted.result]

/-- However many values were pushed, a log-sum-exp holds the largest exponent and the sum
relative to it, no exponential of a positive number was taken, and the result is the logarithm
of the whole sum, in whatever order the values came: at most the logarithm of their number
beyond the largest exponent. -/
theorem logsumexp_never_exponentiates_positives (beta : ℝ) (alpha : EReal) (first : ℝ)
    (rest : List ℝ) :
    ∃ shift scaled x : ℝ,
      (extended (first :: rest)).foldl Accumulator.push (start ⟨.logsumexp, (beta : EReal), alpha⟩) =
        .logsumexp beta (first :: rest).length shift scaled ∧
      Shifted beta (first :: rest) shift scaled ∧
      aggregate ⟨.logsumexp, (beta : EReal), alpha⟩ (extended (first :: rest)) = .ok (x : EReal) ∧
      x = Real.log ((first :: rest).map fun t => Real.exp (beta * t)).sum / beta ∧
      (0 < beta →
        shift / beta ≤ x ∧ x ≤ shift / beta + Real.log (first :: rest).length / beta) ∧
      (beta < 0 →
        shift / beta + Real.log (first :: rest).length / beta ≤ x ∧ x ≤ shift / beta) ∧
      (∀ values, values.Perm (first :: rest) →
        aggregate ⟨.logsumexp, (beta : EReal), alpha⟩ (extended values) = .ok (x : EReal)) ∧
      ∃ exponents,
        aggregate ⟨.logsumexp, plain (beta : EReal), plain alpha⟩
          ((extended (first :: rest)).map plain) = .ok ⟨x, exponents⟩ ∧
        ∀ y ∈ exponents, y ≤ 0 := by
  have hne : first :: rest ≠ [] := List.cons_ne_nil first rest
  generalize first :: rest = values at hne ⊢
  obtain ⟨shift, scaled, heq, hshifted⟩ := shifted_of_pushes beta alpha hne
  have hresult := aggregate_logsumexp beta alpha hne
  have hkept := ((keeps_start (beta : EReal) alpha).foldl (extended values)).result hresult
  refine ⟨shift, scaled, _, heq, hshifted, hresult, rfl, fun hpos => ?_, fun hneg => ?_, ?_, hkept⟩
  · rw [← hshifted.log_eq, ← add_div]
    exact ⟨div_le_div_of_nonneg_right (by linarith [hshifted.log_nonneg]) hpos.le,
      div_le_div_of_nonneg_right (by linarith [hshifted.log_le]) hpos.le⟩
  · rw [← hshifted.log_eq, ← add_div]
    exact ⟨div_le_div_of_nonpos_of_le hneg.le (by linarith [hshifted.log_le]),
      div_le_div_of_nonpos_of_le hneg.le (by linarith [hshifted.log_nonneg])⟩
  · intro others hperm
    have hothers : others ≠ [] := by
      rintro rfl
      exact hne hperm.symm.eq_nil
    rw [aggregate_logsumexp beta alpha hothers, (hperm.map fun t => Real.exp (beta * t)).sum_eq]

end Aggregator

end EnergyGraph
