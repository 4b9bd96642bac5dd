-- The digits that doubles are written with: whichever candidate is taken, it rounds to the
-- double, and its digits stay within a bound.
import EnergyGraph.Decimal.Shortest
import EnergyGraph.Proofs.Nearest

namespace EnergyGraph.Decimal

/-! ## Zeros at the end -/

/-- Dropping zeros changes no value. -/
theorem Dec.value_stripped (d : Dec) : d.stripped.value = d.value := by
  unfold stripped
  generalize Nat.log2 d.digits + 1 = fuel
  induction fuel generalizing d with
  | zero => rfl
  | succ fuel ih =>
    unfold stripped.go
    split
    · rename_i hzero
      have hdigits : (d.digits : ℚ) = (d.digits / 10 : ℕ) * 10 := by
        exact_mod_cast (Nat.div_mul_cancel (Nat.dvd_of_mod_eq_zero hzero.2)).symm
      rw [ih]
      unfold value
      rw [hdigits, zpow_add_one₀ (by norm_num)]
      ring
    · rfl

theorem Dec.stripped_le (d : Dec) : d.stripped.digits ≤ d.digits := by
  unfold stripped
  generalize Nat.log2 d.digits + 1 = fuel
  induction fuel generalizing d with
  | zero => exact le_rfl
  | succ fuel ih =>
    unfold stripped.go
    split
    · exact (ih _).trans (Nat.div_le_self _ _)
    · exact le_rfl

/-! ## Candidates -/

section

variable {x : Binary} {d : Dec}

theorem Binary.readsBack_of_onGrid {grid : ℤ} (h : x.onGrid? grid = some d) :
    x.readsBack d = true := by
  unfold onGrid? at h
  dsimp only at h
  split at h
  · rename_i hbelow habove
    split at h
    · cases h
      exact hbelow
    · cases h
      exact habove
    · cases h
      split
      · exact hbelow
      · exact habove
  · rename_i hbelow _
    cases h
    exact hbelow
  · rename_i _ habove
    cases h
    exact habove
  · cases h

theorem Binary.value_exact : x.exact.value = x.m * (2 : ℚ) ^ x.q := by
  unfold exact Dec.value
  split
  · rename_i hq
    rw [zpow_zero, mul_one]
    push_cast [Nat.pow_eq]
    rw [← zpow_natCast, Int.toNat_of_nonneg hq]
  · rename_i hq
    have hten : (10 : ℚ) ^ x.q = 5 ^ x.q * 2 ^ x.q := by
      rw [← mul_zpow]
      norm_num
    have hfive : (5 : ℚ) ^ (-x.q).toNat * 5 ^ x.q = 1 := by
      rw [← zpow_natCast, Int.toNat_of_nonneg (by omega), ← zpow_add₀ (by norm_num)]
      simp
    push_cast [Nat.pow_eq]
    rw [hten, mul_assoc, ← mul_assoc _ ((5 : ℚ) ^ x.q), hfive, one_mul]

theorem Binary.rounds_exact : x.Rounds x.exact.value := by
  have hpos : (0 : ℚ) < (2 : ℚ) ^ x.q := by positivity
  have hlow : x.low < x.m * (2 : ℚ) ^ x.q := by
    rw [x.low_eq]
    gcongr
    split <;> linarith
  have hhigh : x.m * (2 : ℚ) ^ x.q < x.high := by
    rw [x.high_eq]
    gcongr
    linarith
  rw [value_exact]
  exact ⟨hlow.le, hhigh.le, fun _ => ⟨hlow, hhigh⟩⟩

/-- The candidates for the digits: points of some grid, or the value itself. -/
theorem Binary.shortest_cases (x : Binary) :
    (∃ n < 17, ∃ d, x.onGrid? (x.scale - (n + 1 : ℕ)) = some d ∧ x.shortest = d.stripped) ∨
      x.shortest = x.exact.stripped := by
  unfold shortest
  dsimp only
  cases h : (List.range 17).findSome? fun n => x.onGrid? (x.scale - (n + 1 : ℕ)) with
  | none => exact Or.inr rfl
  | some d =>
    obtain ⟨n, hn, hd⟩ := List.exists_of_findSome?_eq_some h
    exact Or.inl ⟨n, List.mem_range.mp hn, d, hd, rfl⟩

/-- The digits that a value is written with round to it. -/
theorem Binary.rounds_shortest (hm : x.m ≠ 0) : x.Rounds x.shortest.value := by
  rcases x.shortest_cases with ⟨n, -, d, hd, hshortest⟩ | hshortest
  · rw [hshortest, d.value_stripped]
    exact (readsBack_iff hm).mp (readsBack_of_onGrid hd)
  · rw [hshortest, Dec.value_stripped]
    exact x.rounds_exact

/-! ## How many digits there are -/

theorem two_natPow_le {i : ℕ} (j : ℕ) (h : i ≤ j) : Nat.pow 2 i ≤ 2 ^ j :=
  Nat.pow_le_pow_right Nat.two_pos h

/-- A power of powers of one base, each below that of another. -/
theorem pow_mul_le {a b i j : ℕ} (h : a ^ i ≤ b ^ j) (k : ℕ) : a ^ (i * k) ≤ b ^ (j * k) := by
  rw [pow_mul, pow_mul]
  exact Nat.pow_le_pow_left h k

theorem Binary.scale_ge (hx : x.WellFormed) : -324 ≤ x.scale := by
  have hleast := hx.least
  unfold scale
  dsimp only
  split
  · omega
  · split <;> omega

theorem Binary.digits_le_of_onGrid {grid : ℤ} (h : x.onGrid? grid = some d) :
    d.digits ≤ x.steps grid + 1 := by
  have hcases : d.digits = x.steps grid ∨ d.digits = x.steps grid + 1 := by
    unfold onGrid? at h
    dsimp only at h
    split at h
    · split at h
      · cases h
        exact Or.inl rfl
      · cases h
        exact Or.inr rfl
      · cases h
        split
        · exact Or.inl rfl
        · exact Or.inr rfl
    · cases h
      exact Or.inl rfl
    · cases h
      exact Or.inr rfl
    · cases h
  omega

theorem Binary.steps_lt (hx : x.WellFormed) {grid : ℤ} (h : -342 ≤ grid) :
    x.steps grid < 2 ^ (53 + 971 + 10 * 114) := by
  have hgreatest := hx.greatest
  have hten : Nat.pow 10 (-grid).toNat ≤ 2 ^ (10 * 114) :=
    calc Nat.pow 10 (-grid).toNat ≤ 10 ^ (3 * 114) := Nat.pow_le_pow_right (by norm_num) (by omega)
      _ ≤ 2 ^ (10 * 114) := pow_mul_le (by norm_num) 114
  have htwo : Nat.pow 2 x.q.toNat ≤ 2 ^ 971 := two_natPow_le 971 (by omega)
  calc x.steps grid ≤ x.m * Nat.pow 2 x.q.toNat * Nat.pow 10 (-grid).toNat := Nat.div_le_self _ _
    _ ≤ x.m * 2 ^ 971 * 2 ^ (10 * 114) := Nat.mul_le_mul (Nat.mul_le_mul_left x.m htwo) hten
    _ < 2 ^ 53 * 2 ^ 971 * 2 ^ (10 * 114) := by
      have hsmall := hx.small
      gcongr
    _ = 2 ^ (53 + 971 + 10 * 114) := by rw [pow_add, pow_add]

theorem Binary.exact_lt (hx : x.WellFormed) : x.exact.digits < 2 ^ (53 + 7 * 358) := by
  have hgreatest := hx.greatest
  have hleast := hx.least
  have hsmall := hx.small
  unfold exact
  split
  · have htwo : Nat.pow 2 x.q.toNat ≤ 2 ^ (7 * 358) := two_natPow_le (7 * 358) (by omega)
    calc x.m * Nat.pow 2 x.q.toNat ≤ x.m * 2 ^ (7 * 358) := Nat.mul_le_mul_left x.m htwo
      _ < 2 ^ 53 * 2 ^ (7 * 358) := by gcongr
      _ = 2 ^ (53 + 7 * 358) := by rw [pow_add]
  · have hfive : Nat.pow 5 (-x.q).toNat ≤ 2 ^ (7 * 358) :=
      calc Nat.pow 5 (-x.q).toNat ≤ 5 ^ (3 * 358) := Nat.pow_le_pow_right (by norm_num) (by omega)
        _ ≤ 2 ^ (7 * 358) := pow_mul_le (by norm_num) 358
    calc x.m * Nat.pow 5 (-x.q).toNat ≤ x.m * 2 ^ (7 * 358) := Nat.mul_le_mul_left x.m hfive
      _ < 2 ^ 53 * 2 ^ (7 * 358) := by gcongr
      _ = 2 ^ (53 + 7 * 358) := by rw [pow_add]

/-- A bound for the digits that a value is written with. -/
theorem Binary.shortest_lt (hx : x.WellFormed) : x.shortest.digits < 2 ^ (53 + 7 * 358) := by
  rcases x.shortest_cases with ⟨n, hn, d, hd, hshortest⟩ | hshortest
  · have hscale := scale_ge hx
    have hgrid : -342 ≤ x.scale - (n + 1 : ℕ) := by omega
    calc x.shortest.digits ≤ d.digits := hshortest ▸ d.stripped_le
      _ ≤ x.steps (x.scale - (n + 1 : ℕ)) + 1 := digits_le_of_onGrid hd
      _ ≤ 2 ^ (53 + 971 + 10 * 114) := steps_lt hx hgrid
      _ < 2 ^ (53 + 7 * 358) := by
        rw [Nat.pow_lt_pow_iff_right Nat.one_lt_two]
        omega
  · calc x.shortest.digits ≤ x.exact.digits := hshortest ▸ x.exact.stripped_le
      _ < 2 ^ (53 + 7 * 358) := exact_lt hx

end

end EnergyGraph.Decimal
