-- Pushing and replaying have the same result. What an accumulator holds is told by the values
-- pushed so far, and one more value keeps that true. Only a log-sum-exp does not hold the sum
-- that the replay takes: it holds one relative to the largest exponent so far, and rescales it
-- when a larger one comes.
import EnergyGraph.Proofs.ExtendedReals

namespace EnergyGraph.Aggregator

/-! ## Sums of exponentials -/

/-- The sum of the exponentials of all `y - shift`. -/
noncomputable def sumExp (shift : EReal) (ys : List EReal) : ENNReal :=
  (ys.map fun y => EReal.exp (y - shift)).sum

/-- The largest of some exponents. -/
noncomputable def largestExponent (ys : List EReal) : EReal := ys.foldl max ⊥

variable {ys : List EReal} {y shift scaled : EReal}

theorem sumExp_concat (shift : EReal) (ys : List EReal) (y : EReal) :
    sumExp shift (ys ++ [y]) = sumExp shift ys + EReal.exp (y - shift) := by
  unfold sumExp
  rw [List.map_append, List.sum_append, List.map_singleton, List.sum_singleton]

theorem largestExponent_concat (ys : List EReal) (y : EReal) :
    largestExponent (ys ++ [y]) = max (largestExponent ys) y := by
  unfold largestExponent
  rw [List.foldl_append, List.foldl_cons, List.foldl_nil]

theorem eq_bot_of_largestExponent (h : largestExponent ys = ⊥) : ∀ y ∈ ys, y = ⊥ := by
  induction ys using List.reverseRecOn with
  | nil => exact fun _ h => nomatch h
  | append_singleton ys z ih =>
    rw [largestExponent_concat, max_eq_bot] at h
    intro y hy
    rcases List.mem_append.mp hy with hy | hy
    · exact ih h.1 y hy
    · rw [List.mem_singleton.mp hy]
      exact h.2

theorem top_mem_of_largestExponent (h : largestExponent ys = ⊤) : ⊤ ∈ ys := by
  induction ys using List.reverseRecOn with
  | nil => exact absurd h bot_ne_top
  | append_singleton ys z ih =>
    rw [largestExponent_concat, max_eq_top] at h
    rw [List.mem_append, List.mem_singleton]
    exact h.imp ih Eq.symm

/-- Exponents that are all the lowest have no exponential. -/
theorem sumExp_of_bot (h : ∀ y ∈ ys, y = ⊥) (shift : EReal) : sumExp shift ys = 0 := by
  unfold sumExp
  refine List.sum_eq_zero fun x hx => ?_
  obtain ⟨y, hy, rfl⟩ := List.mem_map.mp hx
  rw [h y hy, EReal.bot_sub, EReal.exp_bot]

theorem sumExp_of_top (h : ⊤ ∈ ys) : sumExp 0 ys = ⊤ := by
  unfold sumExp
  have hmem : (⊤ : ENNReal) ∈ ys.map fun y => EReal.exp (y - 0) :=
    List.mem_map.mpr ⟨⊤, h, by rw [sub_zero, EReal.exp_top]⟩
  exact top_unique (List.single_le_sum (fun _ _ => zero_le) _ hmem)

/-- A sum relative to one real number is a multiple of that relative to another. -/
theorem sumExp_mul (s r : ℝ) (ys : List EReal) :
    sumExp s ys * EReal.exp ((s : EReal) - r) = sumExp r ys := by
  unfold sumExp
  rw [← List.sum_map_mul_right]
  refine congrArg List.sum (List.map_congr_left fun y _ => ?_)
  rw [← EReal.exp_add]
  congr 1
  induction y with
  | bot => simp
  | top => simp [← EReal.coe_sub]
  | coe y =>
    norm_cast
    ring

/-! ## One more exponent -/

/-- What `shift` and `scaled` tell of some exponents: the largest of them, and the sum of the
exponentials relative to it. Relative to an infinity there is no such sum. -/
structure Rescaled (ys : List EReal) (shift scaled : EReal) : Prop where
  shift_eq : shift = largestExponent ys
  scaled_eq : ∀ s : ℝ, shift = s → scaled = sumExp s ys
  one_le : shift = ⊤ → 1 ≤ scaled

theorem rescaled_nil : Rescaled [] ⊥ 0 where
  shift_eq := rfl
  scaled_eq := fun _ h => absurd h (EReal.bot_ne_coe _)
  one_le := fun h => absurd h bot_ne_top

theorem sumExp_concat_self (s : ℝ) (ys : List EReal) :
    (sumExp s (ys ++ [(s : EReal)]) : EReal) = sumExp s ys + 1 := by
  rw [sumExp_concat, EReal.sub_self (EReal.coe_ne_top s) (EReal.coe_ne_bot s), EReal.exp_zero,
    EReal.coe_ennreal_add, EReal.coe_ennreal_one]

theorem pushExponent_above (h : Rescaled ys shift scaled) (hlt : shift < y) :
    Rescaled (ys ++ [y]) y (scaled * Scalar.exp (shift - y) + 1) where
  shift_eq := by rw [largestExponent_concat, ← h.shift_eq, max_eq_right hlt.le]
  scaled_eq := by
    rintro r rfl
    rw [sumExp_concat_self]
    congr 1
    change scaled * (EReal.exp (shift - r) : EReal) = _
    induction shift with
    | bot =>
      rw [EReal.bot_sub, EReal.exp_bot, EReal.coe_ennreal_zero, mul_zero,
        sumExp_of_bot (eq_bot_of_largestExponent h.shift_eq.symm), EReal.coe_ennreal_zero]
    | top => exact absurd hlt not_top_lt
    | coe s => rw [h.scaled_eq s rfl, ← EReal.coe_ennreal_mul, sumExp_mul]
  one_le := by
    rintro rfl
    change 1 ≤ scaled * (EReal.exp (shift - ⊤) : EReal) + 1
    rw [EReal.sub_top, EReal.exp_bot, EReal.coe_ennreal_zero, mul_zero, zero_add]

theorem pushExponent_equal (h : Rescaled ys shift scaled) :
    Rescaled (ys ++ [shift]) shift (scaled + 1) where
  shift_eq := by rw [largestExponent_concat, ← h.shift_eq, max_self]
  scaled_eq := by
    rintro s rfl
    rw [sumExp_concat_self, h.scaled_eq s rfl]
  one_le := fun htop => (h.one_le htop).trans (le_add_of_nonneg_right zero_le_one)

theorem pushExponent_below (h : Rescaled ys shift scaled) (hlt : y < shift) :
    Rescaled (ys ++ [y]) shift (scaled + Scalar.exp (y - shift)) where
  shift_eq := by rw [largestExponent_concat, ← h.shift_eq, max_eq_left hlt.le]
  scaled_eq := by
    rintro s rfl
    rw [sumExp_concat, EReal.coe_ennreal_add, h.scaled_eq s rfl]
    rfl
  one_le := fun htop => (h.one_le htop).trans (le_add_of_nonneg_right (EReal.coe_ennreal_nonneg _))

theorem pushExponent_rescaled (h : Rescaled ys shift scaled) (y : EReal) :
    Rescaled (ys ++ [y]) (Accumulator.pushExponent y shift scaled).1
      (Accumulator.pushExponent y shift scaled).2 := by
  unfold Accumulator.pushExponent
  rw [Extended.one_eq, Extended.negativeInfinity_eq]
  rcases lt_trichotomy shift y with habove | rfl | hbelow
  · rw [if_pos (Extended.lt_iff.mpr habove)]
    exact pushExponent_above h habove
  · rw [if_neg (mt Extended.lt_iff.mp (lt_irrefl shift)), if_pos (Extended.eq_iff.mpr rfl)]
    exact pushExponent_equal h
  · rw [if_neg (mt Extended.lt_iff.mp hbelow.not_gt), if_neg (mt Extended.eq_iff.mp hbelow.ne)]
    have hpushed := pushExponent_below h hbelow
    by_cases hy : y = ⊥
    · -- The lowest exponent is left out, and its exponential is zero.
      subst hy
      rw [if_pos (Extended.eq_iff.mpr rfl)]
      have hzero : scaled + Scalar.exp (⊥ - shift) = scaled := by
        change scaled + (EReal.exp (⊥ - shift) : EReal) = scaled
        rw [EReal.bot_sub, EReal.exp_bot, EReal.coe_ennreal_zero, add_zero]
      rwa [hzero] at hpushed
    · rw [if_neg (mt Extended.eq_iff.mp hy)]
      exact hpushed

/-! ## What an accumulator holds -/

/-- The logarithm that a value counts as in a product of logarithms. -/
noncomputable def flooredLog (x : EReal) : EReal := Scalar.log (Scalar.larger x logFloor)

/-- What an accumulator holds after some values. -/
inductive Holds (a : Aggregator EReal) (values : List EReal) : Accumulator EReal → Prop
  | identity (kind : a.kind = .identity) :
    Holds a values (.identity values.length (values.getLastD Scalar.zero))
  | sum (kind : a.kind = .sum) : Holds a values (.sum values.length values.sum)
  | prod (kind : a.kind = .prod) :
    Holds a values (.prod values.length (values.foldl (· * ·) Scalar.one)
      (values.any fun x => Scalar.eq x Scalar.zero))
  | max (kind : a.kind = .max) :
    Holds a values (.extremum true values.length
      (values.tail.foldl Scalar.larger (values.headD Scalar.zero)))
  | min (kind : a.kind = .min) :
    Holds a values (.extremum false values.length
      (values.tail.foldl Scalar.smaller (values.headD Scalar.zero)))
  | mean (kind : a.kind = .mean) : Holds a values (.mean values.length values.sum)
  | logsumexp (kind : a.kind = .logsumexp) {shift scaled : EReal}
      (rescaled : Rescaled (values.map (a.beta * ·)) shift scaled) :
    Holds a values (.logsumexp a.beta values.length shift scaled)
  | logprod (kind : a.kind = .logprod) :
    Holds a values (.logprod values.length (values.map flooredLog).sum)
  | cvar (kind : a.kind = .cvar) : Holds a values (.cvar a.alpha values.length values.reverse)

variable {a : Aggregator EReal} {values : List EReal} {acc : Accumulator EReal}

theorem holds_start (a : Aggregator EReal) : Holds a [] a.start := by
  unfold start
  cases hkind : a.kind with
  | identity => exact .identity hkind
  | sum =>
    simp only [Extended.zero_eq]
    exact .sum hkind
  | prod => exact .prod hkind
  | max => exact .max hkind
  | min => exact .min hkind
  | mean =>
    simp only [Extended.zero_eq]
    exact .mean hkind
  | logsumexp =>
    simp only [Extended.zero_eq, Extended.negativeInfinity_eq]
    exact .logsumexp hkind rescaled_nil
  | logprod =>
    simp only [Extended.zero_eq]
    exact .logprod hkind
  | cvar => exact .cvar hkind

/-- The best of one more value. -/
theorem extremum_concat (pick : EReal → EReal → EReal) (values : List EReal) (x : EReal) :
    (values ++ [x]).tail.foldl pick ((values ++ [x]).headD Scalar.zero) =
      if values.length = 0 then x
      else pick (values.tail.foldl pick (values.headD Scalar.zero)) x := by
  cases values with
  | nil => rfl
  | cons first rest =>
    have hlength : (first :: rest).length ≠ 0 := Nat.succ_ne_zero _
    rw [if_neg hlength, List.cons_append, List.tail_cons, List.foldl_append]
    rfl

theorem sum_concat (xs : List EReal) (x : EReal) : (xs ++ [x]).sum = xs.sum + x := by
  rw [List.sum_append, List.sum_singleton]

/-- One more value is one more value held. -/
theorem Holds.push (h : Holds a values acc) (x : EReal) : Holds a (values ++ [x]) (acc.push x) := by
  have hlength : values.length + 1 = (values ++ [x]).length := by simp
  unfold Accumulator.push
  cases h with
  | identity hkind =>
    have hlast : x = (values ++ [x]).getLastD Scalar.zero := by simp
    dsimp only
    rw [hlength]
    have hnext : Holds a (values ++ [x]) _ := .identity hkind
    rwa [← hlast] at hnext
  | sum hkind =>
    dsimp only
    rw [hlength]
    exact sum_concat values x ▸ .sum hkind
  | prod hkind =>
    have hany : (values.any (fun x => Scalar.eq x Scalar.zero) || Scalar.eq x Scalar.zero) =
        (values ++ [x]).any fun x => Scalar.eq x Scalar.zero := by simp
    have hproduct : values.foldl (· * ·) Scalar.one * x =
        (values ++ [x]).foldl (· * ·) Scalar.one := by simp
    dsimp only
    rw [hlength, hany, hproduct]
    exact .prod hkind
  | max hkind =>
    dsimp only
    rw [hlength, if_pos rfl, ← extremum_concat]
    exact .max hkind
  | min hkind =>
    dsimp only
    rw [hlength, if_neg Bool.false_ne_true, ← extremum_concat]
    exact .min hkind
  | mean hkind =>
    dsimp only
    rw [hlength]
    exact sum_concat values x ▸ .mean hkind
  | logsumexp hkind rescaled =>
    have hmap : values.map (a.beta * ·) ++ [a.beta * x] = (values ++ [x]).map (a.beta * ·) := by
      simp
    dsimp only
    rw [hlength]
    exact .logsumexp hkind (hmap ▸ pushExponent_rescaled rescaled (a.beta * x))
  | logprod hkind =>
    have hsum : (values.map flooredLog).sum + flooredLog x =
        ((values ++ [x]).map flooredLog).sum := by
      rw [List.map_append, List.map_singleton, sum_concat]
    dsimp only
    rw [hlength]
    exact hsum ▸ .logprod hkind
  | cvar hkind =>
    have hreverse : x :: values.reverse = (values ++ [x]).reverse := by simp
    dsimp only
    rw [hlength, hreverse]
    exact .cvar hkind

/-- Values pushed in order are what the accumulator holds. -/
theorem holds_foldl (h : Holds a values acc) (more : List EReal) :
    Holds a (values ++ more) (more.foldl Accumulator.push acc) := by
  induction more generalizing values acc with
  | nil => rwa [List.append_nil]
  | cons x more ih =>
    rw [List.foldl_cons, List.append_cons]
    exact ih (h.push x)

/-! ## The replay -/

/-- All extended reals are defined. -/
theorem extreme_eq (pick : EReal → EReal → EReal) (first : EReal) (rest : List EReal) :
    extreme pick first rest = rest.foldl pick first := by
  unfold extreme
  simp only [Extended.isDefined_eq, Bool.not_true, Bool.false_eq_true, if_false]

theorem floored_eq (x : EReal) : Scalar.log (floored x) = flooredLog x := by
  unfold floored flooredLog
  rw [if_pos (Extended.isDefined_eq x)]

theorem extreme_larger (first : EReal) (rest : List EReal) :
    extreme Scalar.larger first rest = largestExponent (first :: rest) := by
  have hlarger : (Scalar.larger : EReal → EReal → EReal) = max :=
    funext₂ Extended.larger_eq_max
  rw [extreme_eq, hlarger, largestExponent, List.foldl_cons, max_eq_right bot_le]

theorem sum_coe (xs : List ENNReal) :
    (xs.map fun x : ENNReal => (x : EReal)).sum = (xs.sum : EReal) := by
  induction xs with
  | nil => rfl
  | cons x xs ih => rw [List.map_cons, List.sum_cons, ih, List.sum_cons, EReal.coe_ennreal_add]

theorem total_exp (shift : EReal) (ys : List EReal) :
    Summation.total (ys.map fun y => Scalar.exp (y - shift)) = sumExp shift ys := by
  rw [Extended.total_eq, sumExp, ← sum_coe, List.map_map]
  rfl

theorem log_coe (x : ENNReal) : Scalar.log (x : EReal) = ENNReal.log x := by
  change ENNReal.log (x : EReal).toENNReal = _
  rw [EReal.toENNReal_coe]

/-- The logarithm of a sum of exponentials is that of the rescaled sum, and the shift. -/
theorem logSumExp_of_rescaled {first : EReal} {rest : List EReal} {shift scaled : EReal}
    (h : Rescaled (first :: rest) shift scaled) :
    logSumExp first rest = if shift = ⊥ then ⊥ else shift + Scalar.log scaled := by
  unfold logSumExp
  dsimp only
  rw [extreme_larger, ← h.shift_eq, total_exp, log_coe, Extended.zero_eq]
  induction shift with
  | bot =>
    have hfinite : Scalar.isFinite (⊥ : EReal) = false := by simp [Scalar.isFinite]
    rw [hfinite, if_pos rfl, if_neg (by decide),
      sumExp_of_bot (eq_bot_of_largestExponent h.shift_eq.symm), ENNReal.log_zero, add_zero]
  | top =>
    have hfinite : Scalar.isFinite (⊤ : EReal) = false := by simp [Scalar.isFinite]
    have hone : (1 : ENNReal) ≤ scaled.toENNReal := by
      have hle := EReal.toENNReal_le_toENNReal (h.one_le rfl)
      rwa [← EReal.coe_ennreal_one, EReal.toENNReal_coe] at hle
    have hlog : Scalar.log scaled ≠ ⊥ := by
      have hzero := ENNReal.log_le_log hone
      rw [ENNReal.log_one] at hzero
      exact (EReal.bot_lt_zero.trans_le hzero).ne'
    rw [hfinite, if_neg top_ne_bot, if_neg (by decide),
      sumExp_of_top (top_mem_of_largestExponent h.shift_eq.symm), ENNReal.log_top, add_zero,
      EReal.top_add_of_ne_bot hlog]
  | coe s =>
    have hfinite : Scalar.isFinite (s : EReal) = true := by simp [Scalar.isFinite]
    rw [hfinite, if_pos rfl, if_neg (EReal.coe_ne_bot s), h.scaled_eq s rfl, log_coe, add_comm]

theorem cvar_nil (alpha : EReal) : Aggregator.cvar [] alpha = fail (.emptyDomain .cvar) := by
  have hordered : Sorting.descending Scalar.lt Scalar.isDefined ([] : List EReal) = [] :=
    (Sorting.descending_of_comparable _ (List.forall_mem_nil _)).trans List.mergeSort_nil
  unfold Aggregator.cvar
  rw [hordered]
  rfl

/-- The result of an accumulator is the replay of the values that it holds. -/
theorem Holds.replay_eq (h : Holds a values acc) {x : EReal} (hx : acc.result = .ok x) :
    a.replay values = .ok x := by
  unfold Accumulator.result at hx
  unfold replay
  cases h with
  | identity hkind =>
    rw [hkind]
    dsimp only at hx ⊢
    split at hx
    · rename_i hone
      obtain ⟨y, rfl⟩ := List.length_eq_one_iff.mp hone
      exact hx
    · cases hx
  | sum hkind =>
    rw [hkind]
    dsimp only
    rw [Extended.total_eq]
    exact hx
  | prod hkind =>
    rw [hkind]
    dsimp only at hx ⊢
    split at hx
    · rename_i hzero
      rw [if_pos hzero]
      exact hx
    · rename_i hzero
      rw [if_neg hzero]
      exact hx
  | max hkind =>
    rw [hkind]
    cases values with
    | nil => cases hx
    | cons first rest =>
      dsimp only
      rw [extreme_eq]
      exact hx
  | min hkind =>
    rw [hkind]
    cases values with
    | nil => cases hx
    | cons first rest =>
      dsimp only
      rw [extreme_eq]
      exact hx
  | mean hkind =>
    rw [hkind]
    cases values with
    | nil => cases hx
    | cons first rest =>
      dsimp only
      rw [Extended.total_eq]
      exact hx
  | @logsumexp hkind shift scaled rescaled =>
    rw [hkind]
    cases values with
    | nil => cases hx
    | cons first rest =>
      dsimp only
      rw [logSumExp_of_rescaled rescaled]
      have hlength : (first :: rest).length ≠ 0 := Nat.succ_ne_zero _
      dsimp only at hx
      rw [if_neg hlength, Extended.negativeInfinity_eq] at hx
      by_cases hbot : shift = ⊥
      · rw [if_pos (Extended.eq_iff.mpr hbot)] at hx
        rwa [if_pos hbot]
      · rw [if_neg (mt Extended.eq_iff.mp hbot)] at hx
        rwa [if_neg hbot]
  | logprod hkind =>
    rw [hkind]
    dsimp only
    simp only [floored_eq]
    rw [Extended.total_eq]
    exact hx
  | cvar hkind =>
    rw [hkind]
    dsimp only at hx
    rw [List.reverse_reverse] at hx
    cases values with
    | nil =>
      rw [cvar_nil] at hx
      cases hx
    | cons first rest => exact hx

theorem replay_of_aggregate {x : EReal} (h : a.aggregate values = .ok x) :
    a.replay values = .ok x :=
  (holds_foldl (holds_start a) values).replay_eq h

end EnergyGraph.Aggregator
