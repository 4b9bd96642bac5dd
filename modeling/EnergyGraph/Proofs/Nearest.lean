-- The nearest double. A rational number rounds to a double if it lies at most half way to the
-- doubles beside it; the double nearest to a fraction is then that one.
import EnergyGraph.Decimal.Reading
import EnergyGraph.Proofs.DoubleBits
import Mathlib.Algebra.Order.Field.Power
import Mathlib.Algebra.Order.Field.Rat
import Mathlib.Tactic.FieldSimp
import Mathlib.Tactic.Linarith
import Mathlib.Tactic.Positivity
import Mathlib.Tactic.Ring

namespace EnergyGraph.Decimal

/-! ## What rounds to a value -/

def Dec.value (d : Dec) : ℚ := d.digits * (10 : ℚ) ^ d.exp

/-- Half way to the value below. -/
def Binary.low (x : Binary) : ℚ := (4 * x.m - if x.narrowBelow then 1 else 2) * (2 : ℚ) ^ (x.q - 2)

/-- Half way to the value above. -/
def Binary.high (x : Binary) : ℚ := (4 * x.m + 2) * (2 : ℚ) ^ (x.q - 2)

/-- A number rounds to a value if it lies between the two; either end rounds to the even of
the two values beside it. -/
structure Binary.Rounds (x : Binary) (r : ℚ) : Prop where
  low : x.low ≤ r
  high : r ≤ x.high
  ends : x.m % 2 = 1 → x.low < r ∧ r < x.high

/-- Parts that a finite double can have. -/
structure Binary.WellFormed (x : Binary) : Prop where
  small : x.m < 2 ^ 53
  least : -1074 ≤ x.q
  greatest : x.q ≤ 971
  full : 2 ^ 52 ≤ x.m ∨ x.q = -1074
  narrow : x.narrowBelow = true ↔ x.m = 2 ^ 52 ∧ -1074 < x.q

theorem wellFormed_ofBits {x : Float} (h : x.isFinite = true) :
    (Binary.ofBits x.toBits).WellFormed := by
  have hexponent := isFinite_iff.mp h
  have hstored := storedExponent_lt x.toBits
  have hfraction := storedFraction_lt x.toBits
  rw [ofBits_eq]
  split
  · refine ⟨by dsimp only; omega, le_rfl, by simp, Or.inr rfl, ?_⟩
    simp
  · refine ⟨by dsimp only; omega, by dsimp only; omega, by dsimp only; omega,
      Or.inl (Nat.le_add_right _ _), ?_⟩
    simp only [Bool.and_eq_true, beq_iff_eq, decide_eq_true_eq]
    omega

theorem bitsOf_eq (m : ℕ) (e : ℤ) :
    bitsOf m e = if m < 2 ^ 52 then m else (e + 1075).toNat * 2 ^ 52 + (m - 2 ^ 52) := rfl

/-- The bits of the parts are those of the double, without its sign. -/
theorem bitsOf_ofBits (bits : UInt64) :
    bitsOf (Binary.ofBits bits).m (Binary.ofBits bits).q = (unsignedBits bits).toNat := by
  have hfraction := storedFraction_lt bits
  rw [unsignedBits_toNat, magnitude_eq, ofBits_eq, bitsOf_eq]
  by_cases hzero : storedExponent bits = 0
  · rw [if_pos hzero, if_pos hfraction, hzero, Nat.zero_mul, Nat.zero_add]
  · have hnormal : ¬ 2 ^ 52 + storedFraction bits < 2 ^ 52 := by omega
    have hexponent : ((storedExponent bits : ℤ) - 1075 + 1075).toNat = storedExponent bits := by
      omega
    rw [if_neg hzero]
    dsimp only
    rw [if_neg hnormal, Nat.add_sub_cancel_left, hexponent]

/-! ## Comparing without rounding -/

theorem pow_toNat {b : ℚ} (hb : b ≠ 0) (i : ℤ) : b ^ i.toNat = b ^ i * b ^ (-i).toNat := by
  rw [← zpow_natCast, ← zpow_natCast, ← zpow_add₀ hb]
  congr 1
  omega

theorem cmpScaled_eq (a : ℕ) (i : ℤ) (n : ℕ) (j : ℤ) :
    cmpScaled a i n j = compare ((a : ℚ) * (10 : ℚ) ^ i) (n * (2 : ℚ) ^ j) := by
  have hscale : (0 : ℚ) < 10 ^ (-i).toNat * 2 ^ (-j).toNat := by positivity
  have hleft : ((a * Nat.pow 10 i.toNat * Nat.pow 2 (-j).toNat : ℕ) : ℚ) =
      a * (10 : ℚ) ^ i * (10 ^ (-i).toNat * 2 ^ (-j).toNat) := by
    push_cast [Nat.pow_eq]
    rw [pow_toNat (by norm_num) i]
    ring
  have hright : ((n * Nat.pow 2 j.toNat * Nat.pow 10 (-i).toNat : ℕ) : ℚ) =
      n * (2 : ℚ) ^ j * (10 ^ (-i).toNat * 2 ^ (-j).toNat) := by
    push_cast [Nat.pow_eq]
    rw [pow_toNat (by norm_num) j]
    ring
  unfold cmpScaled
  rcases lt_trichotomy ((a : ℚ) * (10 : ℚ) ^ i) (n * (2 : ℚ) ^ j) with h | h | h
  · rw [compare_lt_iff_lt.mpr h, compare_lt_iff_lt, ← Nat.cast_lt (α := ℚ), hleft, hright]
    exact mul_lt_mul_of_pos_right h hscale
  · rw [compare_eq_iff_eq.mpr h, compare_eq_iff_eq, ← Nat.cast_inj (R := ℚ), hleft, hright, h]
  · rw [compare_gt_iff_gt.mpr h, compare_gt_iff_gt, ← Nat.cast_lt (α := ℚ), hleft, hright]
    exact mul_lt_mul_of_pos_right h hscale

theorem Binary.readsBack_iff {x : Binary} {d : Dec} (hm : x.m ≠ 0) :
    x.readsBack d = true ↔ x.Rounds d.value := by
  have hlow : ((if x.narrowBelow then 4 * x.m - 1 else 4 * x.m - 2 : ℕ) : ℚ) *
      (2 : ℚ) ^ (x.q - 2) = x.low := by
    unfold low
    congr 1
    split
    · rw [Nat.cast_sub (by omega)]
      push_cast
      rfl
    · rw [Nat.cast_sub (by omega)]
      push_cast
      rfl
  have hhigh : ((4 * x.m + 2 : ℕ) : ℚ) * (2 : ℚ) ^ (x.q - 2) = x.high := by
    unfold high
    push_cast
    rfl
  unfold readsBack
  simp only [cmpScaled_eq, hlow, hhigh]
  change (((compare d.value x.low == .gt) || _) && ((compare d.value x.high == .lt) || _)) = true ↔ _
  simp only [Bool.and_eq_true, Bool.or_eq_true, beq_iff_eq, compare_gt_iff_gt, compare_lt_iff_lt,
    compare_eq_iff_eq]
  constructor
  · rintro ⟨hl, hh⟩
    refine ⟨?_, ?_, fun hodd => ⟨?_, ?_⟩⟩
    · exact hl.elim le_of_lt fun h => h.2.ge
    · exact hh.elim le_of_lt fun h => h.2.le
    · exact hl.resolve_right fun h => by omega
    · exact hh.resolve_right fun h => by omega
  · rintro ⟨hl, hh, hends⟩
    rcases Nat.mod_two_eq_zero_or_one x.m with heven | hodd
    · exact ⟨hl.lt_or_eq.imp id fun h => ⟨heven, h.symm⟩,
        hh.lt_or_eq.imp id fun h => ⟨heven, h⟩⟩
    · exact ⟨Or.inl (hends hodd).1, Or.inl (hends hodd).2⟩

/-! ## Rounding a fraction -/

/-- An integer is what a quotient rounds to if it lies at most one half away, less if it is odd. -/
theorem roundedQuotient_eq {a b k : ℕ} (hlow : 2 * k * b ≤ 2 * a + b)
    (hhigh : 2 * a ≤ 2 * k * b + b)
    (hends : k % 2 = 1 → 2 * k * b < 2 * a + b ∧ 2 * a < 2 * k * b + b) (hb : 0 < b) :
    roundedQuotient a b = k := by
  have hdiv := Nat.div_add_mod a b
  have hmod := Nat.mod_lt a hb
  unfold roundedQuotient
  generalize a / b = q at *
  generalize a % b = r at *
  have hk : k = q ∨ k = q + 1 := by
    have hle : q ≤ k := by
      by_contra hlt
      have hstep : (k + 1) * b ≤ q * b := Nat.mul_le_mul_right b (by omega)
      nlinarith
    have hge : k ≤ q + 1 := by
      by_contra hgt
      have hstep : (q + 2) * b ≤ k * b := Nat.mul_le_mul_right b (by omega)
      nlinarith
    omega
  rcases hk with rfl | rfl
  · rcases hc : compare (2 * r) b with _ | _ | _
    · rfl
    · rw [compare_eq_iff_eq] at hc
      dsimp only
      split
      · rfl
      · have := (hends (by omega)).2
        nlinarith
    · rw [compare_gt_iff_gt] at hc
      nlinarith
  · rcases hc : compare (2 * r) b with _ | _ | _
    · rw [compare_lt_iff_lt] at hc
      nlinarith
    · rw [compare_eq_iff_eq] at hc
      dsimp only
      split
      · have := (hends (by omega)).1
        nlinarith
      · rfl
    · rfl

/-- The exponent at which a number has 53 binary digits, or fewer at the least exponent. -/
structure IsExponent (r : ℚ) (e : ℤ) : Prop where
  least : -1074 ≤ e
  high : r < 2 ^ 53 * (2 : ℚ) ^ e
  low : 2 ^ 52 * (2 : ℚ) ^ e ≤ r ∨ e = -1074

theorem two_pow_mul_zpow (n : ℕ) (e : ℤ) : (2 : ℚ) ^ n * (2 : ℚ) ^ e = (2 : ℚ) ^ ((n : ℤ) + e) := by
  rw [← zpow_natCast, ← zpow_add₀ (by norm_num)]

theorem IsExponent.not_below {r : ℚ} {e f : ℤ} (he : IsExponent r e) (hf : IsExponent r f) :
    ¬ e < f := by
  intro hlt
  rcases hf.low with hlow | rfl
  · have hbelow := lt_of_le_of_lt hlow he.high
    rw [two_pow_mul_zpow, two_pow_mul_zpow, zpow_lt_zpow_iff_right₀ (by norm_num)] at hbelow
    omega
  · exact absurd he.least (not_le.mpr hlt)

theorem IsExponent.unique {r : ℚ} {e f : ℤ} (he : IsExponent r e) (hf : IsExponent r f) : e = f :=
  le_antisymm (not_lt.mp (hf.not_below he)) (not_lt.mp (he.not_below hf))

/-- The logarithms to base two bound a number. -/
theorem log2_bounds {n : ℕ} (hn : n ≠ 0) :
    (2 : ℚ) ^ (Nat.log2 n : ℤ) ≤ n ∧ (n : ℚ) < (2 : ℚ) ^ ((Nat.log2 n : ℤ) + 1) := by
  constructor
  · rw [zpow_natCast]
    exact_mod_cast Nat.log2_self_le hn
  · rw [← Nat.cast_succ, zpow_natCast]
    exact_mod_cast Nat.lt_log2_self

section

variable {n d : ℕ} (hn : n ≠ 0) (hd : d ≠ 0)

include hd in
theorem scaled_lt_iff (g : ℤ) :
    n * Nat.pow 2 (-g).toNat < d * Nat.pow 2 g.toNat ↔ (n : ℚ) / d < (2 : ℚ) ^ g := by
  have hpos : (0 : ℚ) < d := by exact_mod_cast Nat.pos_of_ne_zero hd
  have hscale : (0 : ℚ) < 2 ^ (-g).toNat := by positivity
  rw [← Nat.cast_lt (α := ℚ)]
  push_cast [Nat.pow_eq]
  rw [pow_toNat (by norm_num) g, ← mul_assoc, mul_lt_mul_iff_left₀ hscale, div_lt_iff₀ hpos,
    mul_comm]

include hn hd in
theorem isExponent_binaryExponent : IsExponent ((n : ℚ) / d) (binaryExponent n d) := by
  have hpos : (0 : ℚ) < d := by exact_mod_cast Nat.pos_of_ne_zero hd
  obtain ⟨hnlow, hnhigh⟩ := log2_bounds hn
  obtain ⟨hdlow, hdhigh⟩ := log2_bounds hd
  set g : ℤ := (Nat.log2 n : ℤ) - Nat.log2 d with hg
  have hlow : (2 : ℚ) ^ (g - 1) ≤ n / d := by
    rw [le_div_iff₀ hpos]
    calc (2 : ℚ) ^ (g - 1) * d ≤ (2 : ℚ) ^ (g - 1) * (2 : ℚ) ^ ((Nat.log2 d : ℤ) + 1) := by gcongr
      _ = (2 : ℚ) ^ (Nat.log2 n : ℤ) := by
        rw [← zpow_add₀ (by norm_num)]
        congr 1
        omega
      _ ≤ n := hnlow
  have hhigh : (n : ℚ) / d < (2 : ℚ) ^ (g + 1) := by
    rw [div_lt_iff₀ hpos]
    calc (n : ℚ) < (2 : ℚ) ^ ((Nat.log2 n : ℤ) + 1) := hnhigh
      _ = (2 : ℚ) ^ (g + 1) * (2 : ℚ) ^ (Nat.log2 d : ℤ) := by
        rw [← zpow_add₀ (by norm_num)]
        congr 1
        omega
      _ ≤ (2 : ℚ) ^ (g + 1) * d := by gcongr
  unfold binaryExponent
  simp only [scaled_lt_iff hd]
  have hfits (e : ℤ) (helow : (2 : ℚ) ^ (52 + e) ≤ n / d)
      (hehigh : (n : ℚ) / d < (2 : ℚ) ^ (53 + e)) :
      IsExponent ((n : ℚ) / d) (max e (-1074)) := by
    refine ⟨le_max_right _ _, lt_of_lt_of_le hehigh ?_, ?_⟩
    · rw [two_pow_mul_zpow]
      exact zpow_le_zpow_right₀ (by norm_num) (by push_cast; omega)
    · rcases le_total e (-1074) with hle | hge
      · exact Or.inr (max_eq_right hle)
      · left
        rw [max_eq_left hge, two_pow_mul_zpow]
        exact helow
  by_cases hless : (n : ℚ) / d < (2 : ℚ) ^ g
  · rw [if_pos hless]
    refine hfits _ ?_ ?_
    · rwa [show (52 : ℤ) + (g - 53) = g - 1 by omega]
    · rwa [show (53 : ℤ) + (g - 53) = g by omega]
  · rw [if_neg hless]
    refine hfits _ ?_ ?_
    · rw [show (52 : ℤ) + (g - 52) = g by omega]
      exact not_lt.mp hless
    · rwa [show (53 : ℤ) + (g - 52) = g + 1 by omega]

end

/-! ## The double that a number rounds to -/

section

variable {x : Binary} {r : ℚ}

theorem Binary.low_eq : x.low = (x.m - if x.narrowBelow then 1 / 4 else 1 / 2) * (2 : ℚ) ^ x.q := by
  have hscale : (2 : ℚ) ^ (x.q - 2) = (2 : ℚ) ^ x.q / 4 := by
    rw [zpow_sub₀ (by norm_num)]
    norm_num
  unfold low
  rw [hscale]
  split <;> ring

theorem Binary.high_eq : x.high = (x.m + 1 / 2) * (2 : ℚ) ^ x.q := by
  have hscale : (2 : ℚ) ^ (x.q - 2) = (2 : ℚ) ^ x.q / 4 := by
    rw [zpow_sub₀ (by norm_num)]
    norm_num
  unfold high
  rw [hscale]
  ring

/-- Nothing that rounds to a value has more digits than it. -/
theorem Binary.Rounds.lt (hx : x.WellFormed) (h : x.Rounds r) : r < 2 ^ 53 * (2 : ℚ) ^ x.q := by
  have hpos : (0 : ℚ) < (2 : ℚ) ^ x.q := by positivity
  have hm : (x.m : ℚ) ≤ 2 ^ 53 - 1 := by
    have hsmall := hx.small
    rw [le_sub_iff_add_le]
    exact_mod_cast hsmall
  calc r ≤ (x.m + 1 / 2) * (2 : ℚ) ^ x.q := x.high_eq ▸ h.high
    _ < 2 ^ 53 * (2 : ℚ) ^ x.q := by
      gcongr
      linarith

/-- What rounds to a value has the exponent of the value, or the one below: the digits are
then carried over into the exponent. -/
theorem Binary.Rounds.isExponent (hx : x.WellFormed) (h : x.Rounds r) :
    IsExponent r x.q ∨ (x.m = 2 ^ 52 ∧ (2 ^ 53 - 1 / 2) * (2 : ℚ) ^ (x.q - 1) ≤ r ∧
      IsExponent r (x.q - 1)) := by
  have hpos : (0 : ℚ) < (2 : ℚ) ^ x.q := by positivity
  by_cases hlow : 2 ^ 52 * (2 : ℚ) ^ x.q ≤ r ∨ x.q = -1074
  · exact Or.inl ⟨hx.least, h.lt hx, hlow⟩
  · rw [not_or, not_le] at hlow
    obtain ⟨hbelow, hq⟩ := hlow
    have hfull := hx.full.resolve_right hq
    have hle := h.low
    rw [x.low_eq] at hle
    have hm : x.m = 2 ^ 52 := by
      have hlt : ((x.m : ℚ) - if x.narrowBelow then 1 / 4 else 1 / 2) < 2 ^ 52 :=
        lt_of_mul_lt_mul_right (lt_of_le_of_lt hle hbelow) hpos.le
      have hcast : (x.m : ℚ) < 2 ^ 52 + 1 := by
        split at hlt <;> linarith
      have hupper : x.m < 2 ^ 52 + 1 := by exact_mod_cast hcast
      omega
    have hleast : -1074 < x.q := lt_of_le_of_ne hx.least (Ne.symm hq)
    have hhalf : (2 : ℚ) ^ x.q = 2 * (2 : ℚ) ^ (x.q - 1) := by
      rw [← zpow_one_add₀ (by norm_num)]
      congr 1
      omega
    rw [hx.narrow.mpr ⟨hm, hleast⟩, if_pos rfl, hm, hhalf] at hle
    rw [hhalf] at hbelow
    have hpos' : (0 : ℚ) < (2 : ℚ) ^ (x.q - 1) := by positivity
    push_cast at hle
    refine Or.inr ⟨hm, by linarith, by omega, by linarith, Or.inl ?_⟩
    nlinarith

/-- The quotient of what rounds to a value is rounded to the digits of the value. -/
theorem Binary.Rounds.roundedQuotient {a b : ℕ} (hb : 0 < b)
    (hr : (a : ℚ) = r / (2 : ℚ) ^ x.q * b) (h : x.Rounds r) : roundedQuotient a b = x.m := by
  have hpos : (0 : ℚ) < (2 : ℚ) ^ x.q := by positivity
  have hcast : (0 : ℚ) < b := by exact_mod_cast hb
  have hdiv : r = r / (2 : ℚ) ^ x.q * (2 : ℚ) ^ x.q := (div_mul_cancel₀ r hpos.ne').symm
  set s : ℚ := r / (2 : ℚ) ^ x.q
  have hlow : ((x.m : ℚ) - 1 / 2) * (2 : ℚ) ^ x.q ≤ x.low := by
    rw [x.low_eq]
    gcongr
    split <;> norm_num
  have hle : (x.m : ℚ) - 1 / 2 ≤ s :=
    le_of_mul_le_mul_right (hlow.trans (hdiv ▸ h.low)) hpos
  have hge : s ≤ x.m + 1 / 2 :=
    le_of_mul_le_mul_right (hdiv ▸ x.high_eq ▸ h.high) hpos
  refine roundedQuotient_eq ?_ ?_ (fun hodd => ?_) hb
  · rw [← Nat.cast_le (α := ℚ)]
    push_cast
    rw [hr]
    nlinarith
  · rw [← Nat.cast_le (α := ℚ)]
    push_cast
    rw [hr]
    nlinarith
  · obtain ⟨hends, hends'⟩ := h.ends hodd
    have hlt : (x.m : ℚ) - 1 / 2 < s :=
      lt_of_mul_lt_mul_right (lt_of_le_of_lt hlow (hdiv ▸ hends)) hpos.le
    have hgt : s < x.m + 1 / 2 :=
      lt_of_mul_lt_mul_right (hdiv ▸ x.high_eq ▸ hends') hpos.le
    rw [← Nat.cast_lt (α := ℚ), ← Nat.cast_lt (α := ℚ)]
    push_cast
    rw [hr]
    constructor <;> nlinarith

/-- What rounds to a value lies within the range of doubles. -/
theorem Binary.Rounds.lt_top (hx : x.WellFormed) (h : x.Rounds r) : r < (2 : ℚ) ^ (1024 : ℤ) :=
  calc r < 2 ^ 53 * (2 : ℚ) ^ x.q := h.lt hx
    _ = (2 : ℚ) ^ ((53 : ℕ) + x.q) := two_pow_mul_zpow 53 x.q
    _ ≤ (2 : ℚ) ^ (1024 : ℤ) := by
      have hgreatest := hx.greatest
      exact zpow_le_zpow_right₀ (by norm_num) (by push_cast; omega)

/-- What rounds to the least value of an exponent from below is rounded to twice its digits, of
the exponent below. -/
theorem roundedQuotient_carried {a b : ℕ} (hb : 0 < b) {e : ℤ}
    (hr : (a : ℚ) = r / (2 : ℚ) ^ e * b) (hlow : (2 ^ 53 - 1 / 2) * (2 : ℚ) ^ e ≤ r)
    (hhigh : r < 2 ^ 53 * (2 : ℚ) ^ e) : roundedQuotient a b = 2 ^ 53 := by
  have hpos : (0 : ℚ) < (2 : ℚ) ^ e := by positivity
  have hcast : (0 : ℚ) < b := by exact_mod_cast hb
  have hle : (2 ^ 53 - 1 / 2 : ℚ) ≤ r / (2 : ℚ) ^ e := (le_div_iff₀ hpos).mpr hlow
  have hlt : r / (2 : ℚ) ^ e < 2 ^ 53 := (div_lt_iff₀ hpos).mpr hhigh
  refine roundedQuotient_eq ?_ ?_ (fun hodd => absurd hodd (by decide)) hb
  · rw [← Nat.cast_le (α := ℚ)]
    push_cast
    rw [hr]
    nlinarith
  · rw [← Nat.cast_le (α := ℚ)]
    push_cast
    rw [hr]
    nlinarith

end

theorem scaled_eq {n d : ℕ} (hd : d ≠ 0) (e : ℤ) :
    ((n * Nat.pow 2 (-e).toNat : ℕ) : ℚ) =
      (n : ℚ) / d / (2 : ℚ) ^ e * (d * Nat.pow 2 e.toNat : ℕ) := by
  have hcast : (d : ℚ) ≠ 0 := by exact_mod_cast hd
  have hpos : (2 : ℚ) ^ e ≠ 0 := zpow_ne_zero e (by norm_num)
  push_cast [Nat.pow_eq]
  rw [pow_toNat (by norm_num) e]
  field_simp

/-- The double nearest to a fraction is the one that the fraction rounds to. -/
theorem nearestRatio_eq {x : Float} (hx : x.isFinite = true) {n d : ℕ} (hn : n ≠ 0) (hd : d ≠ 0)
    (h : (Binary.ofBits x.toBits).Rounds (n / d)) : nearestRatio n d = x.abs := by
  have hexponent := isExponent_binaryExponent hn hd
  have hscaled := scaled_eq (n := n) hd (binaryExponent n d)
  have hpos : 0 < d * Nat.pow 2 (binaryExponent n d).toNat :=
    Nat.mul_pos (Nat.pos_of_ne_zero hd) (Nat.pow_pos (by decide))
  have hbits : bitsOf (roundedQuotient (n * Nat.pow 2 (-binaryExponent n d).toNat)
      (d * Nat.pow 2 (binaryExponent n d).toNat)) (binaryExponent n d) =
        (unsignedBits x.toBits).toNat := by
    rw [← bitsOf_ofBits]
    rcases h.isExponent (wellFormed_ofBits hx) with hsame | ⟨hm, hlow, hbelow⟩
    · have he := hexponent.unique hsame
      rw [he] at hscaled hpos ⊢
      rw [h.roundedQuotient hpos hscaled]
    · have he := hexponent.unique hbelow
      have hleast := hbelow.least
      rw [he] at hscaled hpos ⊢
      rw [roundedQuotient_carried hpos hscaled hlow hbelow.high, hm, bitsOf_eq, bitsOf_eq,
        if_neg (by decide), if_neg (by decide)]
      omega
  unfold nearestRatio
  rw [if_neg (by simp [hn, hd])]
  dsimp only
  rw [hbits, Nat.min_eq_left (unsignedBits_lt hx).le, ← ofBits_unsignedBits hx]
  exact congrArg Float.ofBits UInt64.ofNat_toNat

/-! ## The double that a decimal rounds to -/

/-- How many decimal digits a number of so many binary digits has, from above. -/
theorem ten_pow_le {n k : ℕ} (hn : n < 4000) (hk : k = n * 30103 / 100000) :
    10 ^ k ≤ 2 ^ n * 10 ^ 10 :=
  calc 10 ^ k ≤ 10 ^ (3 * (k / 3 + 1)) := Nat.pow_le_pow_right (by norm_num) (by omega)
    _ = 1000 ^ (k / 3 + 1) := pow_mul 10 3 _
    _ ≤ 1024 ^ (k / 3 + 1) := Nat.pow_le_pow_left (by norm_num) _
    _ = 2 ^ (10 * (k / 3 + 1)) := (pow_mul 2 10 _).symm
    _ ≤ 2 ^ (n + 33) := Nat.pow_le_pow_right (by norm_num) (by omega)
    _ = 2 ^ n * 2 ^ 33 := by rw [pow_add]
    _ ≤ 2 ^ n * 10 ^ 10 := Nat.mul_le_mul_left _ (by norm_num)

/-- The same from below. -/
theorem two_pow_le {n k : ℕ} (hn : n < 4000) (hk : k = n * 30103 / 100000) :
    2 ^ (n + 1) ≤ 10 ^ (k + 60) :=
  calc 2 ^ (n + 1) ≤ 2 ^ (13 * ((n + 1) / 13 + 1)) :=
        Nat.pow_le_pow_right (by norm_num) (by omega)
    _ = 8192 ^ ((n + 1) / 13 + 1) := pow_mul 2 13 _
    _ ≤ 10000 ^ ((n + 1) / 13 + 1) := Nat.pow_le_pow_left (by norm_num) _
    _ = 10 ^ (4 * ((n + 1) / 13 + 1)) := (pow_mul 10 4 _).symm
    _ ≤ 10 ^ (k + 60) := Nat.pow_le_pow_right (by norm_num) (by omega)

/-- The doubles end below this power of ten. -/
theorem two_pow_lt_ten_pow : (2 : ℚ) ^ (1024 : ℤ) < (10 : ℚ) ^ (309 : ℤ) :=
  calc (2 : ℚ) ^ (1024 : ℤ) = (2 ^ 256) ^ 4 := by rw [← pow_mul]; exact zpow_natCast 2 1024
    _ ≤ (12 * 10 ^ 76) ^ 4 := pow_le_pow_left₀ (by positivity) (by norm_num) 4
    _ = 12 ^ 4 * 10 ^ 304 := by rw [mul_pow, ← pow_mul]
    _ < 10 ^ 5 * 10 ^ 304 := by gcongr; norm_num
    _ = (10 : ℚ) ^ (309 : ℤ) := by rw [← pow_add]; exact (zpow_natCast 10 309).symm

/-- Half the least double is above this power of ten. -/
theorem ten_pow_lt_two_pow : (10 : ℚ) ^ (-324 : ℤ) < (2 : ℚ) ^ (-1075 : ℤ) := by
  rw [zpow_neg, zpow_neg]
  refine inv_strictAnti₀ (by positivity) ?_
  calc (2 : ℚ) ^ (1075 : ℤ) = 2 ^ 1024 * 2 ^ 51 := by rw [← pow_add]; exact zpow_natCast 2 1075
    _ = (2 ^ 256) ^ 4 * 2 ^ 51 := by rw [← pow_mul]
    _ ≤ (12 * 10 ^ 76) ^ 4 * 2 ^ 51 := by gcongr; norm_num
    _ = 12 ^ 4 * 2 ^ 51 * 10 ^ 304 := by rw [mul_pow, ← pow_mul, mul_right_comm]
    _ < 10 ^ 20 * 10 ^ 304 := by gcongr; norm_num
    _ = (10 : ℚ) ^ (324 : ℤ) := by rw [← pow_add]; exact (zpow_natCast 10 324).symm

section

variable {x : Binary} {d : Dec} (hx : x.WellFormed) (hm : x.m ≠ 0) (h : x.Rounds d.value)

include hm h

/-- What rounds to a value that is not zero is not below half the least one. -/
theorem Binary.Rounds.ge (hx : x.WellFormed) : (2 : ℚ) ^ (-1075 : ℤ) ≤ d.value := by
  have hone : (1 : ℚ) ≤ x.m := by exact_mod_cast Nat.one_le_iff_ne_zero.mpr hm
  calc (2 : ℚ) ^ (-1075 : ℤ) = (2 : ℚ) ^ (-1074 : ℤ) / 2 := zpow_sub_one₀ (by norm_num) (-1074)
    _ = 1 / 2 * (2 : ℚ) ^ (-1074 : ℤ) := by ring
    _ ≤ (x.m - if x.narrowBelow then 1 / 4 else 1 / 2) * (2 : ℚ) ^ (-1074 : ℤ) := by
      gcongr
      split <;> linarith
    _ ≤ (x.m - if x.narrowBelow then 1 / 4 else 1 / 2) * (2 : ℚ) ^ x.q := by
      have hdigits : (0 : ℚ) ≤ x.m - if x.narrowBelow then 1 / 4 else 1 / 2 := by
        split <;> linarith
      have hleast := hx.least
      gcongr
      norm_num
    _ = x.low := x.low_eq.symm
    _ ≤ d.value := h.low

include hx

theorem digits_ne_zero : d.digits ≠ 0 := by
  intro hzero
  have hpos : (0 : ℚ) < (2 : ℚ) ^ (-1075 : ℤ) := by positivity
  have hge := h.ge hm hx
  unfold Dec.value at hge
  rw [hzero, Nat.cast_zero, zero_mul] at hge
  linarith

/-- The shortcuts for decimals far outside the range of doubles do not apply. -/
theorem magnitude_bounds (hn : Nat.log2 d.digits < 4000) :
    (Nat.log2 d.digits : ℤ) * 30103 / 100000 + d.exp ≤ 320 ∧
      -400 ≤ (Nat.log2 d.digits : ℤ) * 30103 / 100000 + d.exp := by
  have hdigits := digits_ne_zero hx hm h
  obtain ⟨hlow, hhigh⟩ := log2_bounds hdigits
  have hpos : (0 : ℚ) < (10 : ℚ) ^ d.exp := by positivity
  generalize Nat.log2 d.digits = n at hn hlow hhigh ⊢
  obtain ⟨k, hk⟩ : ∃ k, k = n * 30103 / 100000 := ⟨_, rfl⟩
  rw [show (n : ℤ) * 30103 / 100000 = k by omega]
  constructor
  · by_contra hlarge
    have hten : (10 : ℚ) ^ k ≤ 2 ^ n * 10 ^ 10 := by exact_mod_cast ten_pow_le hn hk
    have hbig : (10 : ℚ) ^ (320 : ℤ) < (10 : ℚ) ^ (319 : ℤ) :=
      calc (10 : ℚ) ^ (320 : ℤ) ≤ (10 : ℚ) ^ ((k : ℤ) + d.exp) :=
            zpow_le_zpow_right₀ (by norm_num) (by omega)
        _ = (10 : ℚ) ^ k * (10 : ℚ) ^ d.exp := by
          rw [zpow_add₀ (by norm_num), zpow_natCast]
        _ ≤ 2 ^ n * 10 ^ 10 * (10 : ℚ) ^ d.exp := by gcongr
        _ = (2 : ℚ) ^ (n : ℤ) * (10 : ℚ) ^ d.exp * 10 ^ 10 := by
          rw [zpow_natCast]
          ring
        _ ≤ d.digits * (10 : ℚ) ^ d.exp * 10 ^ 10 := by gcongr
        _ ≤ (2 : ℚ) ^ (1024 : ℤ) * 10 ^ 10 := by
          have hlt := h.lt_top hx
          gcongr
          exact hlt.le
        _ < (10 : ℚ) ^ (309 : ℤ) * 10 ^ 10 := by
          gcongr
          exact two_pow_lt_ten_pow
        _ = (10 : ℚ) ^ (319 : ℤ) := (zpow_add₀ (by norm_num) 309 10).symm
    rw [zpow_lt_zpow_iff_right₀ (by norm_num)] at hbig
    omega
  · by_contra hsmall
    have htwo : (2 : ℚ) ^ ((n : ℤ) + 1) ≤ (10 : ℚ) ^ ((k : ℤ) + 60) := by
      exact_mod_cast two_pow_le hn hk
    have htiny : (10 : ℚ) ^ (-324 : ℤ) < (10 : ℚ) ^ (-341 : ℤ) :=
      calc (10 : ℚ) ^ (-324 : ℤ) < (2 : ℚ) ^ (-1075 : ℤ) := ten_pow_lt_two_pow
        _ ≤ d.digits * (10 : ℚ) ^ d.exp := h.ge hm hx
        _ ≤ (2 : ℚ) ^ ((n : ℤ) + 1) * (10 : ℚ) ^ d.exp := by gcongr
        _ ≤ (10 : ℚ) ^ ((k : ℤ) + 60) * (10 : ℚ) ^ d.exp := by gcongr
        _ = (10 : ℚ) ^ ((k : ℤ) + 60 + d.exp) := by rw [← zpow_add₀ (by norm_num)]
        _ ≤ (10 : ℚ) ^ (-341 : ℤ) := zpow_le_zpow_right₀ (by norm_num) (by omega)
    rw [zpow_lt_zpow_iff_right₀ (by norm_num)] at htiny
    omega

end

/-- The double nearest to a decimal is the one that the decimal rounds to. -/
theorem nearest_eq {x : Float} (hx : x.isFinite = true) (hm : (Binary.ofBits x.toBits).m ≠ 0)
    {d : Dec} (hn : Nat.log2 d.digits < 4000) (h : (Binary.ofBits x.toBits).Rounds d.value) :
    nearest d.digits d.exp = x.abs := by
  have hformed := wellFormed_ofBits hx
  have hdigits := digits_ne_zero hformed hm h
  obtain ⟨hhigh, hlow⟩ := magnitude_bounds hformed hm h hn
  have htop : d.digits * Nat.pow 10 d.exp.toNat ≠ 0 :=
    Nat.mul_ne_zero hdigits (Nat.pos_iff_ne_zero.mp (Nat.pow_pos (by decide)))
  have hbottom : Nat.pow 10 (-d.exp).toNat ≠ 0 := Nat.pos_iff_ne_zero.mp (Nat.pow_pos (by decide))
  have hvalue : ((d.digits * Nat.pow 10 d.exp.toNat : ℕ) : ℚ) / (Nat.pow 10 (-d.exp).toNat : ℕ) =
      d.value := by
    have hne : (10 : ℚ) ^ (-d.exp).toNat ≠ 0 := pow_ne_zero _ (by norm_num)
    unfold Dec.value
    push_cast [Nat.pow_eq]
    rw [pow_toNat (by norm_num) d.exp, ← mul_assoc, mul_div_cancel_right₀ _ hne]
  unfold nearest
  dsimp only
  rw [if_neg hdigits, if_neg (by omega), if_neg (by omega)]
  exact nearestRatio_eq hx htop hbottom (hvalue ▸ h)

end EnergyGraph.Decimal
