-- Over real values every aggregate exists, except over too few values or too many for its
-- kind. So a replay does not only repeat the aggregates that there are: it has the same real
-- number where the pushes have one, and an error of the same code where they have none.
import EnergyGraph.Proofs.OnlineLogSumExp

namespace EnergyGraph.Aggregator

/-- The code of the error over so many values, where a kind of aggregation has one. -/
def faultCode? (kind : Kind) (count : Nat) : Option String :=
  match kind with
  | .identity => if count = 1 then none else some "ArityMismatch"
  | .sum | .prod | .logprod => none
  | .max | .min | .mean | .logsumexp | .cvar => if count = 0 then some "EmptyDomain" else none

/-- An error of evaluation that has this code. -/
def FailsWith (code : String) (r : Except Failure EReal) : Prop :=
  ∃ d, r = .error (.diagnostic d) ∧ d.category = .eval ∧ d.code = code

variable {a : Aggregator EReal} {values : List ℝ} {code : String}

theorem failsWith_fail (f : Fault) : FailsWith f.code (fail f) := ⟨f.diagnostic, rfl, rfl, rfl⟩

/-! ## Values without an aggregate -/

theorem aggregate_failsWith {values : List EReal}
    (h : faultCode? a.kind values.length = some code) : FailsWith code (a.aggregate values) := by
  have hheld := holds_foldl (holds_start a) values
  rw [List.nil_append] at hheld
  unfold aggregate
  generalize values.foldl Accumulator.push a.start = acc at hheld ⊢
  unfold Accumulator.result
  cases hheld with
  | identity hkind =>
    simp only [hkind, faultCode?] at h ⊢
    split_ifs at h ⊢
    cases h
    exact failsWith_fail (.notSingle values.length)
  | sum hkind | prod hkind | logprod hkind => simp [hkind, faultCode?] at h
  | max hkind =>
    simp only [hkind, faultCode?] at h ⊢
    split_ifs at h ⊢
    cases h
    exact failsWith_fail (.emptyDomain .max)
  | min hkind =>
    simp only [hkind, faultCode?, Bool.false_eq_true, if_false] at h ⊢
    split_ifs at h ⊢
    cases h
    exact failsWith_fail (.emptyDomain .min)
  | mean hkind =>
    simp only [hkind, faultCode?] at h ⊢
    split_ifs at h ⊢
    cases h
    exact failsWith_fail (.emptyDomain .mean)
  | logsumexp hkind =>
    simp only [hkind, faultCode?] at h ⊢
    split_ifs at h ⊢
    all_goals cases h
    exact failsWith_fail (.emptyDomain .logsumexp)
  | cvar hkind =>
    simp only [hkind, faultCode?] at h
    split_ifs at h with hnil
    cases h
    rw [List.length_eq_zero_iff.mp hnil]
    dsimp only
    rw [List.reverse_nil, List.reverse_nil, cvar_nil]
    exact failsWith_fail (.emptyDomain .cvar)

theorem replay_failsWith {values : List EReal}
    (h : faultCode? a.kind values.length = some code) : FailsWith code (a.replay values) := by
  unfold replay
  unfold faultCode? at h
  cases hkind : a.kind with
  | identity =>
    simp only [hkind] at h ⊢
    split_ifs at h with hone
    cases h
    split
    · exact absurd rfl hone
    · exact failsWith_fail (.notSingleReplayed values.length)
  | sum | prod | logprod => simp [hkind] at h
  | max | min | mean | logsumexp | cvar =>
    simp only [hkind] at h ⊢
    split_ifs at h with hnil
    cases h
    rw [List.length_eq_zero_iff.mp hnil]
    exact failsWith_fail (.emptyDomain _)

/-! ## Aggregates of real values -/

/-- Steps that stay among the real numbers end there. -/
theorem foldl_extended {f : EReal → EReal → EReal} {g : ℝ → ℝ → ℝ}
    (h : ∀ x y : ℝ, f x y = g x y) (values : List ℝ) (x : ℝ) :
    (extended values).foldl f x = (values.foldl g x : ℝ) := by
  induction values generalizing x with
  | nil => rfl
  | cons y values ih =>
    have hcons : extended (y :: values) = (y : EReal) :: extended values := rfl
    rw [hcons, List.foldl_cons, h, ih, List.foldl_cons]

theorem sum_extended (values : List ℝ) : (extended values).sum = (values.sum : ℝ) := by
  induction values with
  | nil => rfl
  | cons x values ih =>
    rw [List.sum_cons, EReal.coe_add, ← ih]
    rfl

theorem larger_coe (x y : ℝ) : Scalar.larger (x : EReal) y = (max x y : ℝ) := by
  rw [Extended.larger_eq_max, EReal.coe_strictMono.monotone.map_max]

theorem smaller_coe (x y : ℝ) : Scalar.smaller (x : EReal) y = (min x y : ℝ) := by
  have hlt : Scalar.lt (y : EReal) x = true ↔ y < x := Extended.lt_iff.trans EReal.coe_lt_coe_iff
  unfold Scalar.smaller
  simp only [hlt]
  rw [min_def_lt']
  split_ifs <;> rfl

/-- The floor of logarithms is a positive number. -/
theorem logFloor_coe : ∃ r : ℝ, 0 < r ∧ (logFloor : EReal) = r := by
  have hinf : (1e-12 : Float).isInf = false := by decide
  have hnan : (1e-12 : Float).isNaN = false := by decide
  have hpos : 0 < Decimal.exactValue 1e-12 := by
    have hm : (Decimal.Binary.ofBits (1e-12 : Float).toBits).m ≠ 0 := by decide
    have hs : Decimal.isNegativeBits (1e-12 : Float).toBits = false := by decide
    unfold Decimal.exactValue
    dsimp only
    rw [hs]
    have hm' : (0 : ℚ) < (Decimal.Binary.ofBits (1e-12 : Float).toBits).m := by
      exact_mod_cast Nat.pos_of_ne_zero hm
    simp only [Bool.false_eq_true, if_false, one_mul]
    positivity
  refine ⟨(Decimal.exactValue 1e-12 : ℚ), by exact_mod_cast hpos, ?_⟩
  change Extended.ofDouble 1e-12 = _
  rw [Extended.ofDouble, hinf, hnan]
  rfl

theorem flooredLog_coe (x : ℝ) : ∃ r : ℝ, flooredLog x = r := by
  obtain ⟨floor, hpos, hfloor⟩ := logFloor_coe
  refine ⟨Real.log (max x floor), ?_⟩
  rw [flooredLog, hfloor, larger_coe]
  change ENNReal.log ((max x floor : ℝ) : EReal).toENNReal = _
  rw [EReal.real_coe_toENNReal, ENNReal.log_ofReal_of_pos (lt_max_of_lt_right hpos)]

/-- Real members make a list of real numbers. -/
theorem exists_extended {xs : List EReal} (h : ∀ x ∈ xs, ∃ r : ℝ, x = r) :
    ∃ rs : List ℝ, xs = extended rs := by
  refine ⟨xs.map EReal.toReal, ?_⟩
  rw [extended, List.map_map]
  refine (List.map_id xs).symm.trans (List.map_congr_left fun x hx => ?_)
  obtain ⟨r, rfl⟩ := h x hx
  rfl

theorem extended_ne_nil (h : values ≠ []) : extended values ≠ [] := by
  rwa [extended, Ne, List.map_eq_nil_iff]

theorem exists_of_mem_extended {x : EReal} (h : x ∈ extended values) : ∃ r : ℝ, x = r := by
  obtain ⟨r, -, rfl⟩ := List.mem_map.mp h
  exact ⟨r, rfl⟩

theorem ofNat_coe (n : Nat) : (Scalar.ofNat n : EReal) = (n : ℝ) := by
  change (((n : ℤ) : ℝ) : EReal) = _
  rw [Int.cast_natCast]

theorem floor?_coe (r : ℝ) : Scalar.floor? (r : EReal) = some ⌊r⌋ :=
  if_neg fun h => h.elim (EReal.coe_ne_top r) (EReal.coe_ne_bot r)

/-- Sorted, real values are real values. -/
theorem exists_descending (h : values ≠ []) : ∃ ordered : List ℝ, extended ordered ≠ [] ∧
    Sorting.descending Scalar.lt Scalar.isDefined (extended values) = extended ordered := by
  have hperm : (Sorting.descending Scalar.lt Scalar.isDefined (extended values)).Perm
      (extended values) := by
    rw [Sorting.descending_of_comparable _ fun x _ => Extended.isDefined_eq x]
    exact List.mergeSort_perm _ _
  obtain ⟨ordered, hordered⟩ :=
    exists_extended fun x hx => exists_of_mem_extended (hperm.mem_iff.mp hx)
  rw [hordered] at hperm
  refine ⟨ordered, fun hnil => ?_, hordered⟩
  rw [hnil] at hperm
  exact extended_ne_nil h hperm.symm.eq_nil

/-- The sum of the values before a place. -/
theorem foldl_before (ordered : List ℝ) {place : Int} (h : 0 ≤ place) :
    (before (extended ordered) place).foldl (· + ·) Scalar.zero =
      (((ordered.take place.toNat).sum : ℝ) : EReal) := by
  rw [before, if_pos h, Extended.foldl_add, Extended.zero_eq, zero_add, extended, ← List.map_take,
    ← extended, sum_extended]

/-- A conditional value at risk of real values is a real number. -/
theorem cvar_coe {alpha : ℝ} (halpha : alpha < 1) (h : values ≠ []) :
    ∃ x : ℝ, Aggregator.cvar (extended values) (alpha : EReal) = .ok (x : EReal) := by
  obtain ⟨ordered, hsome, hordered⟩ := exists_descending h
  have hlength : (extended ordered).length ≠ 0 := mt List.length_eq_zero_iff.mp hsome
  have htail : (Scalar.one - (alpha : EReal)) * Scalar.ofNat (extended ordered).length =
      (((1 - alpha) * (extended ordered).length : ℝ) : EReal) := by
    rw [Extended.one_eq, ofNat_coe, EReal.coe_mul, EReal.coe_sub, EReal.coe_one]
  have hpos : 0 < (1 - alpha) * ((extended ordered).length : ℝ) :=
    mul_pos (sub_pos.mpr halpha) (Nat.cast_pos.mpr (Nat.pos_of_ne_zero hlength))
  unfold Aggregator.cvar
  rw [hordered]
  dsimp only
  rw [if_neg hlength, htail]
  generalize (1 - alpha) * ((extended ordered).length : ℝ) = tail at hpos
  have hfull : 0 ≤ ⌊tail⌋ := Int.floor_nonneg.mpr hpos.le
  have hzero : ¬Scalar.eq (tail : EReal) Scalar.zero := by
    rw [Extended.zero_eq, Extended.eq_iff, EReal.coe_eq_zero]
    exact hpos.ne'
  have hwhole := foldl_before ordered hfull
  have hpart : (tail : EReal) - (Scalar.ofInt? ⌊tail⌋).getD Scalar.zero = (tail - ⌊tail⌋ : ℝ) :=
    (EReal.coe_sub _ _).symm
  rw [floor?_coe]
  dsimp only
  simp only [hwhole, hpart, hzero, if_false, Bool.false_eq_true]
  split_ifs with hmore
  · have hlt : ⌊tail⌋ < (extended ordered).length := by
      rw [Bool.and_eq_true, decide_eq_true_eq] at hmore
      exact hmore.2
    have hitem : ⌊tail⌋.toNat < (extended ordered).length := by omega
    obtain ⟨x, hx⟩ := exists_of_mem_extended (List.getElem_mem hitem)
    rw [item?, if_pos hfull, List.getElem?_eq_getElem hitem, hx]
    refine ⟨((ordered.take ⌊tail⌋.toNat).sum + (tail - ⌊tail⌋) * x) / tail, ?_⟩
    rw [EReal.coe_div, EReal.coe_add, EReal.coe_mul]
    rfl
  · refine ⟨(ordered.take ⌊tail⌋.toNat).sum / tail, ?_⟩
    rw [EReal.coe_div]
    rfl

theorem coe_of_isFinite {x : EReal} (h : Scalar.isFinite x = true) : ∃ r : ℝ, x = r := by
  obtain ⟨htop, hbot⟩ : x ≠ ⊤ ∧ x ≠ ⊥ := of_decide_eq_true h
  exact ⟨x.toReal, (EReal.coe_toReal htop hbot).symm⟩

/-- The parameter of a log-sum-exp is a real number. -/
theorem beta_of_check (h : a.check = .ok a) (hkind : a.kind = .logsumexp) :
    ∃ beta : ℝ, a.beta = beta := by
  unfold check at h
  split_ifs at h with hbeta
  rw [not_and, not_or] at hbeta
  have hfinite := (hbeta hkind).2
  rw [Bool.not_eq_true', Bool.not_eq_false] at hfinite
  exact coe_of_isFinite hfinite

/-- The level of a conditional value at risk is a real number below one. -/
theorem alpha_of_check (h : a.check = .ok a) (hkind : a.kind = .cvar) :
    ∃ alpha : ℝ, a.alpha = alpha ∧ alpha < 1 := by
  unfold check at h
  split_ifs at h with hbeta halpha
  rw [not_and, Bool.not_eq_true', Bool.not_eq_false, Bool.and_eq_true, Extended.zero_eq,
    Extended.one_eq, Extended.lt_iff] at halpha
  obtain ⟨hle, hlt⟩ := halpha hkind
  have hnonneg : 0 ≤ a.alpha := by
    unfold Scalar.le at hle
    rw [Bool.or_eq_true, Extended.lt_iff, Extended.eq_iff] at hle
    exact hle.elim le_of_lt le_of_eq
  have hbot : a.alpha ≠ ⊥ := (EReal.bot_lt_zero.trans_le hnonneg).ne'
  refine ⟨a.alpha.toReal, (EReal.coe_toReal (hlt.trans_le le_top).ne hbot).symm, ?_⟩
  rwa [← EReal.coe_lt_coe_iff, EReal.coe_toReal (hlt.trans_le le_top).ne hbot]

/-! ## Streams and replays -/

/-- The best of some real values is a real number. -/
theorem extremum_coe {pick : EReal → EReal → EReal} {best : ℝ → ℝ → ℝ}
    (hpick : ∀ x y : ℝ, pick x y = best x y) (h : values ≠ []) :
    ∃ x : ℝ, (extended values).tail.foldl pick ((extended values).headD Scalar.zero) = x := by
  obtain ⟨first, rest, rfl⟩ := List.exists_cons_of_ne_nil h
  exact ⟨_, foldl_extended hpick rest first⟩

/-- Of as many values as its kind takes, an aggregator has a real aggregate. -/
theorem aggregate_coe (hcheck : a.check = .ok a) (h : faultCode? a.kind values.length = none) :
    ∃ x : ℝ, a.aggregate (extended values) = .ok (x : EReal) := by
  have hne (hkind : a.kind ∈ [.max, .min, .mean, .logsumexp, .cvar]) : values ≠ [] := by
    rintro rfl
    simp only [List.mem_cons, List.not_mem_nil, or_false] at hkind
    rcases hkind with hkind | hkind | hkind | hkind | hkind <;> simp [hkind, faultCode?] at h
  by_cases hsum : a.kind = .logsumexp
  · -- What it holds is told of extended reals only, and its result is not read off that.
    obtain ⟨beta, hbeta⟩ := beta_of_check hcheck hsum
    obtain ⟨kind, _, alpha⟩ := a
    cases hsum
    cases hbeta
    exact ⟨_, aggregate_logsumexp beta alpha (hne (by simp))⟩
  have hheld := holds_foldl (holds_start a) (extended values)
  rw [List.nil_append] at hheld
  unfold aggregate
  generalize (extended values).foldl Accumulator.push a.start = acc at hheld ⊢
  unfold Accumulator.result
  cases hheld with
  | identity hkind =>
    have hone : values.length = 1 := by simpa [hkind, faultCode?] using h
    obtain ⟨x, rfl⟩ := List.length_eq_one_iff.mp hone
    exact ⟨x, rfl⟩
  | sum => exact ⟨_, congrArg _ (sum_extended values)⟩
  | prod =>
    have hproduct := foldl_extended (fun x y => (EReal.coe_mul x y).symm) values 1
    rw [EReal.coe_one, ← Extended.one_eq] at hproduct
    dsimp only
    rw [hproduct, Extended.zero_eq]
    split_ifs
    · exact ⟨0, rfl⟩
    · exact ⟨_, rfl⟩
  | max hkind =>
    have hvalues := hne (by simp [hkind])
    obtain ⟨x, hx⟩ := extremum_coe larger_coe hvalues
    dsimp only
    rw [if_neg (mt List.length_eq_zero_iff.mp (extended_ne_nil hvalues)), hx]
    exact ⟨x, rfl⟩
  | min hkind =>
    have hvalues := hne (by simp [hkind])
    obtain ⟨x, hx⟩ := extremum_coe smaller_coe hvalues
    dsimp only
    rw [if_neg (mt List.length_eq_zero_iff.mp (extended_ne_nil hvalues)), hx]
    exact ⟨x, rfl⟩
  | mean hkind =>
    have hvalues := hne (by simp [hkind])
    dsimp only
    rw [if_neg (mt List.length_eq_zero_iff.mp (extended_ne_nil hvalues)), sum_extended, ofNat_coe,
      ← EReal.coe_div]
    exact ⟨_, rfl⟩
  | logsumexp hkind => exact absurd hkind hsum
  | logprod =>
    obtain ⟨logs, hlogs⟩ : ∃ logs : List ℝ, (extended values).map flooredLog = extended logs := by
      refine exists_extended fun x hx => ?_
      obtain ⟨y, hy, rfl⟩ := List.mem_map.mp hx
      obtain ⟨r, rfl⟩ := exists_of_mem_extended hy
      exact flooredLog_coe r
    dsimp only
    rw [hlogs, sum_extended]
    exact ⟨_, rfl⟩
  | cvar hkind =>
    obtain ⟨alpha, halpha, hlt⟩ := alpha_of_check hcheck hkind
    dsimp only
    rw [List.reverse_reverse, halpha]
    exact cvar_coe hlt (hne (by simp [hkind]))

theorem aggregate_nil_of_sum (h : a.kind = .sum ∨ a.kind = .logprod) : a.aggregate [] = .ok 0 := by
  unfold aggregate start
  rcases h with h | h <;> simp [h, Accumulator.result, Extended.zero_eq]

theorem aggregate_nil_of_prod (h : a.kind = .prod) : a.aggregate [] = .ok 1 := by
  unfold aggregate start
  simp [h, Accumulator.result, Extended.one_eq]

/-- Pushing and replaying agree on all real values: they have the same real number, or errors of
the same code. Over no values at all, sums and products of logarithms are zero, and products are
one. -/
theorem replay_agrees_with_aggregate (a : Aggregator EReal) (hcheck : a.check = .ok a)
    (values : List ℝ) :
    (faultCode? a.kind values.length = none →
      ∃ x : ℝ, a.aggregate (extended values) = .ok (x : EReal) ∧
        a.replay (extended values) = .ok (x : EReal)) ∧
    (∀ code, faultCode? a.kind values.length = some code →
      FailsWith code (a.aggregate (extended values)) ∧
        FailsWith code (a.replay (extended values))) ∧
    (a.kind = .sum ∨ a.kind = .logprod → a.aggregate [] = .ok 0 ∧ a.replay [] = .ok 0) ∧
    (a.kind = .prod → a.aggregate [] = .ok 1 ∧ a.replay [] = .ok 1) := by
  have hlength : (extended values).length = values.length := List.length_map _
  refine ⟨fun hnone => ?_, fun code hcode => ?_, fun hkind => ?_, fun hkind => ?_⟩
  · obtain ⟨x, hx⟩ := aggregate_coe hcheck hnone
    exact ⟨x, hx, replay_of_aggregate hx⟩
  · rw [← hlength] at hcode
    exact ⟨aggregate_failsWith hcode, replay_failsWith hcode⟩
  · have hzero := aggregate_nil_of_sum hkind
    exact ⟨hzero, replay_of_aggregate hzero⟩
  · have hone := aggregate_nil_of_prod hkind
    exact ⟨hone, replay_of_aggregate hone⟩

/-- A conditional value at risk of two values, at the level of one half. -/
theorem replay_agrees_at_one_half :
    check (⟨.cvar, 1, ((1 / 2 : ℝ) : EReal)⟩ : Aggregator EReal) =
        .ok ⟨.cvar, 1, ((1 / 2 : ℝ) : EReal)⟩ ∧
      ∃ x : ℝ, aggregate ⟨.cvar, 1, ((1 / 2 : ℝ) : EReal)⟩ (extended [3, 4]) = .ok (x : EReal) ∧
        replay ⟨.cvar, 1, ((1 / 2 : ℝ) : EReal)⟩ (extended [3, 4]) = .ok (x : EReal) := by
  have hle : Scalar.le (0 : EReal) ((1 / 2 : ℝ) : EReal) = true := by
    unfold Scalar.le
    rw [Bool.or_eq_true, Extended.lt_iff]
    exact .inl (EReal.coe_pos.mpr one_half_pos)
  have hlt : Scalar.lt ((1 / 2 : ℝ) : EReal) 1 = true := by
    rw [Extended.lt_iff, ← EReal.coe_one, EReal.coe_lt_coe_iff]
    exact one_half_lt_one
  have hcheck : check (⟨.cvar, 1, ((1 / 2 : ℝ) : EReal)⟩ : Aggregator EReal) =
      .ok ⟨.cvar, 1, ((1 / 2 : ℝ) : EReal)⟩ := by
    unfold check
    rw [Extended.zero_eq, Extended.one_eq, hle, hlt]
    rfl
  exact ⟨hcheck, (replay_agrees_with_aggregate _ hcheck [3, 4]).1 rfl⟩

end EnergyGraph.Aggregator
