-- The conditional value at risk is the best weighted mean. Of all ways to weigh some values, no
-- value by more than its share of the tail, none has a larger sum than to take the largest values
-- at full weight and the next one in part. A threshold proves it: relative to the value where
-- the tail ends, whatever lies above counts in full and nothing that lies below can help.
import EnergyGraph.Proofs.Exact
import Mathlib.Data.List.GetD

namespace EnergyGraph.Aggregator

-- Real numbers are scalars and a field, with one division; that of the field has the lemmas.
noncomputable local instance (priority := 2000) : Div ℝ := DivInvMonoid.toDiv

/-! ## Weighted sums -/

/-- Weights of some values: none is negative or above a limit, and all of them add up to one. -/
structure Weighs (limit : ℝ) (weights values : List ℝ) : Prop where
  length_eq : weights.length = values.length
  nonneg : ∀ w ∈ weights, 0 ≤ w
  le_limit : ∀ w ∈ weights, w ≤ limit
  sum_eq : weights.sum = 1

/-- The sum of the products of values with their weights. -/
noncomputable def weightedSum (weights values : List ℝ) : ℝ :=
  (List.zipWith (· * ·) weights values).sum

/-- The weighted sums of some values, over all weights up to a limit. -/
def weightedSums (limit : ℝ) (values : List ℝ) : Set ℝ :=
  {x | ∃ weights, Weighs limit weights values ∧ x = weightedSum weights values}

/-- How far some values lie above a threshold, all together. -/
noncomputable def excess (threshold : ℝ) (values : List ℝ) : ℝ :=
  (values.map fun v => max (v - threshold) 0).sum

variable {limit : ℝ} {weights values others : List ℝ}

theorem weightedSum_cons (w v : ℝ) (weights values : List ℝ) :
    weightedSum (w :: weights) (v :: values) = w * v + weightedSum weights values := by
  unfold weightedSum
  rw [List.zipWith_cons_cons, List.sum_cons]

theorem weightedSum_append (h : weights.length = values.length) (more others : List ℝ) :
    weightedSum (weights ++ more) (values ++ others) =
      weightedSum weights values + weightedSum more others := by
  unfold weightedSum
  rw [List.zipWith_append h, List.sum_append]

/-- Equal weights are one factor. -/
theorem weightedSum_const (w : ℝ) (values : List ℝ) :
    weightedSum (values.map fun _ => w) values = w * values.sum := by
  induction values with
  | nil => simp [weightedSum]
  | cons v values ih => rw [List.map_cons, weightedSum_cons, ih, List.sum_cons, mul_add]

/-- No weighted sum is above a threshold by more than the excess of the values allows. -/
theorem weightedSum_le (hlength : weights.length = values.length) (hnonneg : ∀ w ∈ weights, 0 ≤ w)
    (hlimit : ∀ w ∈ weights, w ≤ limit) (threshold : ℝ) :
    weightedSum weights values ≤ threshold * weights.sum + limit * excess threshold values := by
  induction weights generalizing values with
  | nil =>
    obtain rfl := List.length_eq_zero_iff.mp hlength.symm
    simp [weightedSum, excess]
  | cons w weights ih =>
    obtain ⟨v, values, rfl⟩ := List.exists_cons_of_length_eq_add_one hlength.symm
    have hrest := ih (Nat.succ.inj hlength) (fun u hu => hnonneg u (List.mem_cons_of_mem w hu))
      fun u hu => hlimit u (List.mem_cons_of_mem w hu)
    have hvalue : w * (v - threshold) ≤ limit * max (v - threshold) 0 :=
      calc w * (v - threshold) ≤ w * max (v - threshold) 0 :=
            mul_le_mul_of_nonneg_left (le_max_left _ _) (hnonneg w List.mem_cons_self)
        _ ≤ limit * max (v - threshold) 0 :=
            mul_le_mul_of_nonneg_right (hlimit w List.mem_cons_self) (le_max_right _ _)
    have hexcess : excess threshold (v :: values) =
        max (v - threshold) 0 + excess threshold values := List.sum_cons
    rw [weightedSum_cons, List.sum_cons, hexcess]
    linarith

/-- Larger values have larger weighted sums. -/
theorem weightedSum_mono (h : List.Forall₂ (· ≤ ·) values others)
    (hnonneg : ∀ w ∈ weights, 0 ≤ w) : weightedSum weights values ≤ weightedSum weights others := by
  induction h generalizing weights with
  | nil => exact le_refl _
  | @cons v u values others hle _ ih =>
    cases weights with
    | nil => exact le_refl _
    | cons w weights =>
      rw [weightedSum_cons, weightedSum_cons]
      exact add_le_add (mul_le_mul_of_nonneg_left hle (hnonneg w List.mem_cons_self))
        (ih fun u hu => hnonneg u (List.mem_cons_of_mem w hu))

/-- Values in another order have the same weighted sums, each with its weights in that order. -/
theorem exists_weights_perm (h : values.Perm others) (hlength : weights.length = values.length) :
    ∃ moved : List ℝ, moved.Perm weights ∧ moved.length = others.length ∧
      weightedSum moved others = weightedSum weights values := by
  induction h generalizing weights with
  | nil => exact ⟨weights, .refl _, hlength, rfl⟩
  | cons v _ ih =>
    obtain ⟨w, weights, rfl⟩ := List.exists_cons_of_length_eq_add_one hlength
    obtain ⟨moved, hperm, hmoved, hsum⟩ := ih (Nat.succ.inj hlength)
    refine ⟨w :: moved, hperm.cons w, congrArg Nat.succ hmoved, ?_⟩
    rw [weightedSum_cons, weightedSum_cons, hsum]
  | swap v u values =>
    obtain ⟨w, weights, rfl⟩ := List.exists_cons_of_length_eq_add_one hlength
    obtain ⟨x, weights, rfl⟩ := List.exists_cons_of_length_eq_add_one (Nat.succ.inj hlength)
    refine ⟨x :: w :: weights, .swap w x weights, hlength, ?_⟩
    rw [weightedSum_cons, weightedSum_cons, weightedSum_cons, weightedSum_cons]
    ring
  | trans _ _ ih ih' =>
    obtain ⟨moved, hperm, hmoved, hsum⟩ := ih hlength
    obtain ⟨final, hperm', hfinal, hsum'⟩ := ih' hmoved
    exact ⟨final, hperm'.trans hperm, hfinal, hsum'.trans hsum⟩

theorem weightedSums_perm (h : values.Perm others) :
    weightedSums limit values = weightedSums limit others := by
  suffices hsub : ∀ {values others : List ℝ}, values.Perm others →
      weightedSums limit values ⊆ weightedSums limit others from
    Set.Subset.antisymm (hsub h) (hsub h.symm)
  rintro values others h x ⟨weights, hweighs, rfl⟩
  obtain ⟨moved, hperm, hlength, hsum⟩ := exists_weights_perm h hweighs.length_eq
  refine ⟨moved, ⟨hlength, fun w hw => ?_, fun w hw => ?_, ?_⟩, hsum.symm⟩
  · exact hweighs.nonneg w (hperm.mem_iff.mp hw)
  · exact hweighs.le_limit w (hperm.mem_iff.mp hw)
  · rw [hperm.sum_eq, hweighs.sum_eq]

/-- A higher limit leaves more ways to weigh. -/
theorem weightedSums_mono {higher : ℝ} (h : limit ≤ higher) (values : List ℝ) :
    weightedSums limit values ⊆ weightedSums higher values := by
  rintro x ⟨weights, hweighs, rfl⟩
  exact ⟨weights, ⟨hweighs.length_eq, hweighs.nonneg,
    fun w hw => (hweighs.le_limit w hw).trans h, hweighs.sum_eq⟩, rfl⟩

/-- The mean, if the limit allows it. -/
theorem mean_mem_weightedSums (hne : values ≠ []) (h : 1 / (values.length : ℝ) ≤ limit) :
    values.sum / values.length ∈ weightedSums limit values := by
  have hlength : (values.length : ℝ) ≠ 0 :=
    Nat.cast_ne_zero.mpr (mt List.length_eq_zero_iff.mp hne)
  have hmem : ∀ w ∈ values.map fun _ => 1 / (values.length : ℝ), w = 1 / (values.length : ℝ) := by
    intro w hw
    obtain ⟨_, -, rfl⟩ := List.mem_map.mp hw
    rfl
  refine ⟨values.map fun _ => 1 / (values.length : ℝ), ⟨List.length_map _, ?_, ?_, ?_⟩, ?_⟩
  · intro w hw
    rw [hmem w hw]
    positivity
  · intro w hw
    rwa [hmem w hw]
  · rw [List.map_const', List.sum_replicate, nsmul_eq_mul]
    exact mul_one_div_cancel hlength
  · rw [weightedSum_const, one_div_mul_eq_div]

/-! ## The largest values -/

/-- The mean of the largest values, so many of them as a tail is long; the last one counts
in part. The values are sorted, the largest first. -/
noncomputable def tailMean (ordered : List ℝ) (tail : ℝ) : ℝ :=
  ((ordered.take ⌊tail⌋₊).sum + (tail - ⌊tail⌋₊) * ordered.getD ⌊tail⌋₊ 0) / tail

variable {ordered : List ℝ} {tail : ℝ}

/-- Between the values that count in full and all others there is a threshold: the value that
counts in part, and where no value is left, any one below. -/
theorem exists_threshold (hsorted : ordered.Pairwise (· ≥ ·)) (hlong : tail ≤ ordered.length)
    (hpos : 0 < tail) :
    ∃ threshold, (∀ v ∈ ordered.take ⌊tail⌋₊, threshold ≤ v) ∧
      (∀ v ∈ ordered.drop ⌊tail⌋₊, v ≤ threshold) ∧
      (tail - ⌊tail⌋₊) * ordered.getD ⌊tail⌋₊ 0 = (tail - ⌊tail⌋₊) * threshold := by
  have hfloor : (⌊tail⌋₊ : ℝ) ≤ tail := Nat.floor_le hpos.le
  rcases lt_or_ge ⌊tail⌋₊ ordered.length with hlt | hge
  · have hsplit : ordered.Pairwise (· ≥ ·) := hsorted
    rw [← List.take_append_drop ⌊tail⌋₊ ordered, List.pairwise_append] at hsplit
    have hdrop := List.drop_eq_getElem_cons hlt
    refine ⟨ordered[⌊tail⌋₊], fun v hv => hsplit.2.2 v hv _ ?_, fun v hv => ?_, ?_⟩
    · rw [hdrop]
      exact List.mem_cons_self
    · have hrest := hsplit.2.1
      rw [hdrop] at hv hrest
      rcases List.mem_cons.mp hv with rfl | hv
      · exact le_refl _
      · exact (List.pairwise_cons.mp hrest).1 v hv
    · rw [List.getD_eq_getElem _ _ hlt]
  · have hfull : tail = ⌊tail⌋₊ :=
      le_antisymm (hlong.trans (Nat.cast_le.mpr hge)) hfloor
    obtain ⟨threshold, hbelow⟩ := (List.finite_toSet ordered).bddBelow
    refine ⟨threshold, fun v hv => hbelow (List.mem_of_mem_take hv), fun v hv => ?_, ?_⟩
    · rw [List.drop_eq_nil_of_le hge] at hv
      cases hv
    · rw [← hfull, sub_self, zero_mul, zero_mul]

theorem excess_of_threshold {threshold : ℝ} (upper lower : List ℝ)
    (hupper : ∀ v ∈ upper, threshold ≤ v) (hlower : ∀ v ∈ lower, v ≤ threshold) :
    excess threshold (upper ++ lower) = upper.sum - upper.length * threshold := by
  have hzero : excess threshold lower = 0 := by
    refine List.sum_eq_zero fun x hx => ?_
    obtain ⟨v, hv, rfl⟩ := List.mem_map.mp hx
    exact max_eq_right (sub_nonpos.mpr (hlower v hv))
  have hfull : excess threshold upper = (upper.map fun v => v - threshold).sum := by
    refine congrArg List.sum (List.map_congr_left fun v hv => ?_)
    exact max_eq_left (sub_nonneg.mpr (hupper v hv))
  have happend : excess threshold (upper ++ lower) =
      excess threshold upper + excess threshold lower := by
    unfold excess
    rw [List.map_append, List.sum_append]
  simp only [sub_eq_add_neg] at hfull ⊢
  rw [happend, hzero, hfull, add_zero, List.sum_map_add, List.map_id', List.map_const',
    List.sum_replicate, nsmul_eq_mul, mul_neg]

/-- The mean of a tail is its threshold and the share of what lies above. -/
theorem tailMean_eq_excess (hsorted : ordered.Pairwise (· ≥ ·)) (hlong : tail ≤ ordered.length)
    (hpos : 0 < tail) :
    ∃ threshold, tailMean ordered tail = threshold + 1 / tail * excess threshold ordered := by
  obtain ⟨threshold, hupper, hlower, hpart⟩ := exists_threshold hsorted hlong hpos
  have hexcess := excess_of_threshold _ _ hupper hlower
  have hfull : ⌊tail⌋₊ ≤ ordered.length :=
    Nat.cast_le.mp ((Nat.floor_le hpos.le).trans hlong)
  rw [List.take_append_drop, List.length_take_of_le hfull] at hexcess
  refine ⟨threshold, ?_⟩
  rw [tailMean, hpart, hexcess, div_eq_iff hpos.ne', add_mul, one_div, inv_mul_eq_div,
    div_mul_cancel₀ _ hpos.ne']
  ring

/-- The weights that take the largest values in full and the next one in part. -/
theorem tailMean_mem_weightedSums (hlong : tail ≤ ordered.length) (hpos : 0 < tail) :
    tailMean ordered tail ∈ weightedSums (1 / tail) ordered := by
  have hfloor : (⌊tail⌋₊ : ℝ) ≤ tail := Nat.floor_le hpos.le
  have hless : tail < ⌊tail⌋₊ + 1 := Nat.lt_floor_add_one tail
  have hfull : ⌊tail⌋₊ ≤ ordered.length := Nat.cast_le.mp (hfloor.trans hlong)
  have hlimit : 0 < 1 / tail := one_div_pos.mpr hpos
  have hinv : tail * (1 / tail) = 1 := mul_one_div_cancel hpos.ne'
  have htake : (List.replicate ⌊tail⌋₊ (1 / tail)).length = (ordered.take ⌊tail⌋₊).length := by
    rw [List.length_replicate, List.length_take_of_le hfull]
  have hwhole : weightedSum (List.replicate ⌊tail⌋₊ (1 / tail)) (ordered.take ⌊tail⌋₊) =
      1 / tail * (ordered.take ⌊tail⌋₊).sum := by
    rw [← weightedSum_const, List.map_const', ← htake, List.length_replicate]
  rcases lt_or_ge ⌊tail⌋₊ ordered.length with hlt | hge
  · have hdrop := List.drop_eq_getElem_cons hlt
    set rest := ordered.drop (⌊tail⌋₊ + 1)
    have hsum : weightedSum (List.replicate ⌊tail⌋₊ (1 / tail) ++
        ((tail - ⌊tail⌋₊) * (1 / tail)) :: rest.map fun _ => 0) ordered =
          tailMean ordered tail := by
      conv_lhs => rw [← List.take_append_drop ⌊tail⌋₊ ordered]
      rw [weightedSum_append htake, hwhole, hdrop, weightedSum_cons, weightedSum_const, zero_mul,
        tailMean, List.getD_eq_getElem _ _ hlt]
      ring
    refine ⟨_, ⟨?_, ?_, ?_, ?_⟩, hsum.symm⟩
    · conv_rhs => rw [← List.take_append_drop ⌊tail⌋₊ ordered, hdrop]
      rw [List.length_append, List.length_append, htake, List.length_cons, List.length_map,
        List.length_cons]
    · intro w hw
      rcases List.mem_append.mp hw with hw | hw
      · rw [List.eq_of_mem_replicate hw]
        exact hlimit.le
      rcases List.mem_cons.mp hw with rfl | hw
      · exact mul_nonneg (sub_nonneg.mpr hfloor) hlimit.le
      · obtain ⟨_, -, rfl⟩ := List.mem_map.mp hw
        exact le_refl _
    · intro w hw
      rcases List.mem_append.mp hw with hw | hw
      · exact (List.eq_of_mem_replicate hw).le
      rcases List.mem_cons.mp hw with rfl | hw
      · exact mul_le_of_le_one_left hlimit.le (by linarith)
      · obtain ⟨_, -, rfl⟩ := List.mem_map.mp hw
        exact hlimit.le
    · rw [List.sum_append, List.sum_replicate, List.sum_cons, List.map_const', List.sum_replicate,
        nsmul_eq_mul, smul_zero, add_zero, ← add_mul, add_sub_cancel, hinv]
  · have hwholes : tail = ⌊tail⌋₊ := le_antisymm (hlong.trans (Nat.cast_le.mpr hge)) hfloor
    rw [List.take_of_length_le hge] at htake hwhole
    refine ⟨_, ⟨htake, fun w hw => ?_, fun w hw => ?_, ?_⟩, ?_⟩
    · rw [List.eq_of_mem_replicate hw]
      exact hlimit.le
    · exact (List.eq_of_mem_replicate hw).le
    · rw [List.sum_replicate, nsmul_eq_mul, ← hwholes, hinv]
    · rw [hwhole, tailMean, List.take_of_length_le hge, ← hwholes, sub_self, zero_mul, add_zero,
        one_div_mul_eq_div]

/-- No weights do better. -/
theorem tailMean_isGreatest (hsorted : ordered.Pairwise (· ≥ ·)) (hlong : tail ≤ ordered.length)
    (hpos : 0 < tail) : IsGreatest (weightedSums (1 / tail) ordered) (tailMean ordered tail) := by
  refine ⟨tailMean_mem_weightedSums hlong hpos, ?_⟩
  rintro x ⟨weights, hweighs, rfl⟩
  obtain ⟨threshold, heq⟩ := tailMean_eq_excess hsorted hlong hpos
  have hle := weightedSum_le hweighs.length_eq hweighs.nonneg hweighs.le_limit threshold
  rwa [hweighs.sum_eq, mul_one, ← heq] at hle

/-! ## The conditional value at risk -/

theorem pairwise_descending (values : List ℝ) :
    (Sorting.descending Scalar.lt Scalar.isDefined values).Pairwise (· ≥ ·) := by
  rw [Sorting.descending_of_comparable _ fun x _ => Exact.isDefined_eq x]
  refine (List.pairwise_mergeSort ?_ ?_ values).imp fun {a b} h => ?_
  · intro a b c hab hbc
    rw [Bool.not_eq_true', ← Bool.not_eq_true, Exact.lt_iff, not_lt] at hab hbc ⊢
    exact hbc.trans hab
  · intro a b
    rw [Bool.or_eq_true, Bool.not_eq_true', ← Bool.not_eq_true, Bool.not_eq_true',
      ← Bool.not_eq_true, Exact.lt_iff, Exact.lt_iff, not_lt, not_lt]
    exact le_total b a
  · rwa [Bool.not_eq_true', ← Bool.not_eq_true, Exact.lt_iff, not_lt] at h

theorem descending_perm (values : List ℝ) :
    (Sorting.descending Scalar.lt Scalar.isDefined values).Perm values := by
  rw [Sorting.descending_of_comparable _ fun x _ => Exact.isDefined_eq x]
  exact List.mergeSort_perm _ _

/-- Neither a place outside of the list nor a division by zero is come to: the conditional value
at risk is the mean of a tail. -/
theorem cvar_eq_tailMean {alpha : ℝ} (hlevel : 0 ≤ alpha) (hbelow : alpha < 1) (hne : values ≠ []) :
    cvar values alpha = .ok (tailMean (Sorting.descending Scalar.lt Scalar.isDefined values)
      ((1 - alpha) * values.length)) := by
  have hlength := (descending_perm values).length_eq
  unfold cvar
  generalize Sorting.descending Scalar.lt Scalar.isDefined values = ordered at hlength ⊢
  have hsome : ordered.length ≠ 0 := by
    rw [hlength]
    exact mt List.length_eq_zero_iff.mp hne
  have htail : (Scalar.one - alpha) * Scalar.ofNat ordered.length =
      (1 - alpha) * (values.length : ℝ) := by
    rw [Exact.one_eq, hlength]
    rfl
  dsimp only
  rw [if_neg hsome, htail]
  have hpos : 0 < (1 - alpha) * (values.length : ℝ) := by
    refine mul_pos (sub_pos.mpr hbelow) (Nat.cast_pos.mpr ?_)
    omega
  have hlong : (1 - alpha) * (values.length : ℝ) ≤ ordered.length := by
    rw [hlength]
    exact mul_le_of_le_one_left (Nat.cast_nonneg _) (by linarith)
  generalize (1 - alpha) * (values.length : ℝ) = tail at hpos hlong
  have hfloor : Scalar.floor? tail = some (⌊tail⌋₊ : ℤ) := by
    change some ⌊tail⌋ = _
    rw [Int.natCast_floor_eq_floor hpos.le]
  have hzero : ¬Scalar.eq tail Scalar.zero := by
    rw [Exact.zero_eq]
    exact fun h => hpos.ne' (of_decide_eq_true h)
  have hwhole : (before ordered (⌊tail⌋₊ : ℤ)).foldl (· + ·) Scalar.zero =
      (ordered.take ⌊tail⌋₊).sum := by
    rw [before, if_pos (Int.natCast_nonneg _), Int.toNat_natCast]
    exact (Exact.foldl_add _ _).trans (by rw [Exact.zero_eq, zero_add])
  have hpart : tail - ((Scalar.ofInt? (⌊tail⌋₊ : ℤ)).getD Scalar.zero : ℝ) = tail - ⌊tail⌋₊ :=
    congrArg (tail - ·) (Int.cast_natCast _)
  have hnonneg : 0 ≤ tail - ⌊tail⌋₊ := sub_nonneg.mpr (Nat.floor_le hpos.le)
  rw [hfloor]
  dsimp only
  simp only [hwhole, hpart, hzero, if_false, Bool.false_eq_true]
  unfold tailMean
  split_ifs with hmore
  · rw [Bool.and_eq_true, decide_eq_true_eq] at hmore
    have hlt : ⌊tail⌋₊ < ordered.length := Int.ofNat_lt.mp hmore.2
    rw [item?, if_pos (Int.natCast_nonneg _), Int.toNat_natCast, List.getElem?_eq_getElem hlt,
      List.getD_eq_getElem _ _ hlt]
    rfl
  · -- No part is left, or there is no value that could count in part.
    have hnone : (tail - ⌊tail⌋₊) * ordered.getD ⌊tail⌋₊ 0 = 0 := by
      rcases lt_or_ge ⌊tail⌋₊ ordered.length with hlt | hge
      · rw [Bool.and_eq_true, decide_eq_true_eq, not_and', Int.ofNat_lt, Exact.zero_eq,
          Exact.lt_iff, not_lt] at hmore
        rw [le_antisymm (hmore hlt) hnonneg, zero_mul]
      · rw [List.getD_eq_default _ _ hge, mul_zero]
    rw [hnone, add_zero]
    rfl

/-- The best weighted sum with no weight above its share of the tail. -/
theorem exists_cvar {alpha : ℝ} (hlevel : 0 ≤ alpha) (hbelow : alpha < 1) (hne : values ≠ []) :
    ∃ x, cvar values alpha = .ok x ∧
      IsGreatest (weightedSums (1 / ((1 - alpha) * values.length)) values) x := by
  have hperm := descending_perm values
  have hpos : 0 < (values.length : ℝ) := Nat.cast_pos.mpr (List.length_pos_iff.mpr hne)
  have hlong : (1 - alpha) * values.length ≤
      (Sorting.descending Scalar.lt Scalar.isDefined values).length := by
    rw [hperm.length_eq]
    exact mul_le_of_le_one_left hpos.le (by linarith)
  refine ⟨_, cvar_eq_tailMean hlevel hbelow hne, ?_⟩
  rw [← weightedSums_perm hperm]
  exact tailMean_isGreatest (pairwise_descending values) hlong (mul_pos (by linarith) hpos)

theorem le_of_isGreatest {x m : ℝ} (hx : IsGreatest (weightedSums limit values) x)
    (hm : ∀ v ∈ values, v ≤ m) : x ≤ m := by
  obtain ⟨weights, hweighs, rfl⟩ := hx.1
  have hle := weightedSum_le hweighs.length_eq hweighs.nonneg hweighs.le_limit m
  have hexcess := excess_of_threshold [] values (fun _ h => nomatch h) hm
  rw [List.nil_append, List.sum_nil, List.length_nil, Nat.cast_zero, zero_mul, sub_zero] at hexcess
  rwa [hweighs.sum_eq, hexcess, mul_one, mul_zero, add_zero] at hle

/-- If no weight may be above the mean weight, all weights are the mean weight. -/
theorem le_mean_of_isGreatest {x : ℝ} (hne : values ≠ [])
    (hx : IsGreatest (weightedSums (1 / values.length) values) x) :
    x ≤ values.sum / values.length := by
  have hlength : (values.length : ℝ) ≠ 0 :=
    Nat.cast_ne_zero.mpr (mt List.length_eq_zero_iff.mp hne)
  obtain ⟨weights, hweighs, rfl⟩ := hx.1
  obtain ⟨m, hm⟩ := (List.finite_toSet values).bddBelow
  have hle := weightedSum_le hweighs.length_eq hweighs.nonneg hweighs.le_limit m
  have hexcess := excess_of_threshold values [] (fun v hv => hm hv) fun _ h => nomatch h
  rw [List.append_nil] at hexcess
  rw [hweighs.sum_eq, hexcess, mul_one, one_div_mul_eq_div, sub_div, mul_comm, mul_div_assoc,
    div_self hlength, mul_one, add_sub_cancel] at hle
  exact hle

/-- Pushed one by one, values are listed, the latest first. -/
theorem aggregate_cvar {α : Type} [Scalar α] (beta alpha : α) (values : List α) :
    aggregate ⟨.cvar, beta, alpha⟩ values = cvar values alpha := by
  have hpush : ∀ (n : Nat) (latest : List α),
      values.foldl Accumulator.push (.cvar alpha n latest) =
        .cvar alpha (n + values.length) (values.reverse ++ latest) := by
    induction values with
    | nil => exact fun _ _ => rfl
    | cons v values ih =>
      intro n latest
      rw [List.foldl_cons, Accumulator.push, ih, List.length_cons, List.reverse_cons,
        List.append_assoc, List.singleton_append, Nat.add_assoc, Nat.add_comm 1]
  unfold aggregate start
  dsimp only
  rw [hpush, Accumulator.result, List.append_nil, List.reverse_reverse]

/-- Of all weights that are at most the share of the tail and add up to one, the conditional value
at risk takes the best. There is always one, whatever the values and the level below one: it lies
between the mean and the largest value, is the mean at the level zero, whatever the order of the
values, and it falls neither with a higher level nor with larger values. -/
theorem cvar_isGreatest {alpha : ℝ} (hlevel : 0 ≤ alpha) (hbelow : alpha < 1) (first : ℝ)
    (rest : List ℝ) :
    ∃ x : ℝ, cvar (first :: rest) alpha = .ok x ∧
      (∀ beta, aggregate ⟨.cvar, beta, alpha⟩ (first :: rest) = .ok x) ∧
      IsGreatest (weightedSums (1 / ((1 - alpha) * (first :: rest).length)) (first :: rest)) x ∧
      (first :: rest).sum / (first :: rest).length ≤ x ∧
      (∃ largest, IsGreatest {v | v ∈ first :: rest} largest ∧ x ≤ largest) ∧
      (alpha = 0 → x = (first :: rest).sum / (first :: rest).length) ∧
      (∀ others, others.Perm (first :: rest) → cvar others alpha = .ok x) ∧
      (∀ higher, alpha ≤ higher → higher < 1 → ∃ y, cvar (first :: rest) higher = .ok y ∧ x ≤ y) ∧
      ∀ others, List.Forall₂ (· ≤ ·) (first :: rest) others →
        ∃ y, cvar others alpha = .ok y ∧ x ≤ y := by
  have hne : first :: rest ≠ [] := List.cons_ne_nil first rest
  generalize first :: rest = values at hne ⊢
  have hpos : 0 < (values.length : ℝ) := Nat.cast_pos.mpr (List.length_pos_iff.mpr hne)
  obtain ⟨x, hx, hgreatest⟩ := exists_cvar hlevel hbelow hne
  have hmean : values.sum / values.length ≤ x := by
    refine hgreatest.2 (mean_mem_weightedSums hne ?_)
    exact one_div_le_one_div_of_le (mul_pos (by linarith) hpos)
      (mul_le_of_le_one_left hpos.le (by linarith))
  refine ⟨x, hx, fun beta => (aggregate_cvar beta alpha values).trans hx, hgreatest, hmean, ?_, ?_,
    ?_, ?_, ?_⟩
  · obtain ⟨largest, hmem, hle⟩ := Set.exists_max_image {v | v ∈ values} id
      (List.finite_toSet values) (List.exists_mem_of_ne_nil values hne)
    exact ⟨largest, ⟨hmem, hle⟩, le_of_isGreatest hgreatest hle⟩
  · rintro rfl
    rw [sub_zero, one_mul] at hgreatest
    exact le_antisymm (le_mean_of_isGreatest hne hgreatest) hmean
  · intro others hperm
    have hsome : others ≠ [] := by
      rintro rfl
      exact hne hperm.symm.eq_nil
    obtain ⟨y, hy, hothers⟩ := exists_cvar hlevel hbelow hsome
    rw [weightedSums_perm hperm, hperm.length_eq] at hothers
    rw [hy, hothers.unique hgreatest]
  · intro higher hle hhigher
    obtain ⟨y, hy, hbest⟩ := exists_cvar (hlevel.trans hle) hhigher hne
    refine ⟨y, hy, hbest.2 (weightedSums_mono ?_ values hgreatest.1)⟩
    exact one_div_le_one_div_of_le (mul_pos (by linarith) hpos)
      (mul_le_mul_of_nonneg_right (by linarith) hpos.le)
  · intro others hothers
    have hlength := hothers.length_eq
    have hsome : others ≠ [] := List.length_pos_iff.mp (hlength ▸ List.length_pos_iff.mpr hne)
    obtain ⟨y, hy, hbest⟩ := exists_cvar hlevel hbelow hsome
    obtain ⟨weights, hweighs, rfl⟩ := hgreatest.1
    refine ⟨y, hy, (weightedSum_mono hothers hweighs.nonneg).trans (hbest.2 ⟨weights, ?_, rfl⟩)⟩
    rw [← hlength]
    exact ⟨hweighs.length_eq.trans hlength, hweighs.nonneg, hweighs.le_limit, hweighs.sum_eq⟩

/-- Of the values 1, 3 and 2, the tail of one half holds the 3 and half of the 2. -/
theorem cvar_isGreatest_half :
    (0 : ℝ) ≤ 1 / 2 ∧ (1 / 2 : ℝ) < 1 ∧ cvar [1, 3, 2] (1 / 2 : ℝ) = .ok (8 / 3) ∧
      IsGreatest (weightedSums (2 / 3) [1, 3, 2]) (8 / 3) := by
  obtain ⟨x, hx, -, hgreatest, -⟩ :=
    cvar_isGreatest (by norm_num : (0 : ℝ) ≤ 1 / 2) (by norm_num) 1 [3, 2]
  have hlimit : 1 / ((1 - 1 / 2) * (([1, 3, 2] : List ℝ).length : ℝ)) = 2 / 3 := by norm_num
  rw [hlimit] at hgreatest
  have hle : x ≤ 8 / 3 := by
    obtain ⟨weights, hweighs, rfl⟩ := hgreatest.1
    have hbound := weightedSum_le hweighs.length_eq hweighs.nonneg hweighs.le_limit 2
    rw [hweighs.sum_eq] at hbound
    norm_num [excess] at hbound
    linarith
  have hge : 8 / 3 ≤ x := by
    refine hgreatest.2 ⟨[0, 2 / 3, 1 / 3], ⟨rfl, ?_, ?_, ?_⟩, ?_⟩
    all_goals norm_num [weightedSum]
  obtain rfl := le_antisymm hle hge
  exact ⟨by norm_num, by norm_num, hx, hgreatest⟩

end EnergyGraph.Aggregator
