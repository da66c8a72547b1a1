import ShiftFirst.Proofs.Binary64.Rounding

namespace ShiftFirst.Binary64

variable {x : Binary64} {power : ℤ} {d : Decimal} {n : ℕ}

section Grid

/-- The step of the grid of a power of ten and the quarter of the unit of the number, as whole
multiples of the same. -/
theorem exists_scale (x : Binary64) (power : ℤ) : ∃ scale : ℚ, 0 < scale ∧
    ((10 ^ power.toNat * 2 ^ (2 - x.unit).toNat : ℕ) : ℚ) = 10 ^ power * scale ∧
    ((10 ^ (-power).toNat * 2 ^ (x.unit - 2).toNat : ℕ) : ℚ) = 2 ^ (x.unit - 2) * scale := by
  refine ⟨10 ^ (-power).toNat * 2 ^ (2 - x.unit).toNat, by positivity, ?_, ?_⟩
  · push_cast
    rw [← pow_toNat_neg (by decide) power]
    ring
  · push_cast
    rw [← pow_toNat_neg two_ne_zero (x.unit - 2), neg_sub]
    ring

variable {scale : ℚ} {grid quarter : ℕ} (pos : 0 < scale) (hgrid : (grid : ℚ) = 10 ^ power * scale)
  (hquarter : (quarter : ℚ) = 2 ^ (x.unit - 2) * scale)
include pos hgrid hquarter

/-- The test on the grid is whether the number is the one to round to. -/
theorem rounds_of_inside
    (inside : (4 * x.significand - x.below) * quarter < n * grid ∧
        n * grid < (4 * x.significand + 2) * quarter ∨
      x.significand % 2 = 0 ∧
        (n * grid = (4 * x.significand - x.below) * quarter ∨
          n * grid = (4 * x.significand + 2) * quarter)) :
    x.Rounds (n * 10 ^ power) := by
  have step : ((n * grid : ℕ) : ℚ) = n * 10 ^ power * scale := by
    rw [Nat.cast_mul, hgrid, mul_assoc]
  have least : (((4 * x.significand - x.below) * quarter : ℕ) : ℚ) = x.low * scale := by
    rw [Nat.cast_mul, hquarter, low, mul_assoc]
  have most : (((4 * x.significand + 2) * quarter : ℕ) : ℚ) = x.high * scale := by
    rw [Nat.cast_mul, hquarter, high, mul_assoc]
  have less {p q : ℕ} {v w : ℚ} (hp : (p : ℚ) = v * scale) (hq : (q : ℚ) = w * scale)
      (h : p < q) : v < w := by
    have h : (p : ℚ) < q := Nat.cast_lt.mpr h
    rw [hp, hq] at h
    exact lt_of_mul_lt_mul_right h pos.le
  have same {p q : ℕ} {v w : ℚ} (hp : (p : ℚ) = v * scale) (hq : (q : ℚ) = w * scale)
      (h : p = q) : v = w := by
    subst h
    exact mul_right_cancel₀ pos.ne' (hp.symm.trans hq)
  exact inside.imp (And.imp (less least step) (less step most))
    (And.imp_right (Or.imp (same step least) (same step most)))

end Grid

theorem decimalAt?_rounds (h : x.decimalAt? power = some d) : x.Rounds d.value := by
  obtain ⟨scale, pos, hgrid, hquarter⟩ := exists_scale x power
  unfold decimalAt? at h
  simp only [Nat.pow_eq] at h
  generalize 10 ^ power.toNat * 2 ^ (2 - x.unit).toNat = grid at hgrid h
  generalize 10 ^ (-power).toNat * 2 ^ (x.unit - 2).toNat = quarter at hquarter h
  generalize hbelow : (if x.significand = 2 ^ 52 then 1 else 2) = below at h
  obtain rfl : x.below = below := hbelow
  generalize (if grid ≤ _ then _ else _) = first at h
  generalize (if grid ≤ _ then _ else _) = second at h
  split at h
  next inside =>
    cases h
    exact rounds_of_inside pos hgrid hquarter (by simpa using inside)
  next =>
    split at h
    next inside =>
      cases h
      exact rounds_of_inside pos hgrid hquarter (by simpa using inside)
    next => cases h

/-- The multiple of a step nearest to a number is at most half a step away. -/
theorem nearest_step (a : ℕ) {step : ℕ} (pos : 0 < step) :
    2 * a ≤ 2 * ((if step ≤ 2 * (a % step) then a / step + 1 else a / step) * step) + step ∧
      2 * ((if step ≤ 2 * (a % step) then a / step + 1 else a / step) * step) ≤ 2 * a + step := by
  have divided := Nat.div_add_mod' a step
  have rest := Nat.mod_lt a pos
  generalize a / step = q at divided ⊢
  generalize a % step = r at divided rest ⊢
  split
  next =>
    rw [Nat.add_one_mul q step]
    omega
  next => omega

/-- On a grid that is finer than a quarter of the unit, the step nearest to a number rounds to
it. -/
theorem decimalAt?_isSome (filled : x.significand ≠ 0)
    (fine : (10 : ℚ) ^ power ≤ 2 ^ (x.unit - 2)) : (x.decimalAt? power).isSome := by
  obtain ⟨scale, pos, hgrid, hquarter⟩ := exists_scale x power
  have fine := mul_le_mul_of_nonneg_right fine pos.le
  rw [← hgrid, ← hquarter, Nat.cast_le] at fine
  have gridPos : 0 < 10 ^ power.toNat * 2 ^ (2 - x.unit).toNat := by positivity
  unfold decimalAt?
  simp only [Nat.pow_eq]
  generalize 10 ^ power.toNat * 2 ^ (2 - x.unit).toNat = grid at fine gridPos ⊢
  generalize 10 ^ (-power).toNat * 2 ^ (x.unit - 2).toNat = quarter at fine ⊢
  generalize hbelow : (if x.significand = 2 ^ 52 then 1 else 2) = below
  obtain rfl : x.below = below := hbelow
  generalize hfirst : (if grid ≤ _ then _ else _) = first
  generalize (if grid ≤ _ then _ else _) = second
  have inside : (4 * x.significand - x.below) * quarter < first * grid ∧
      first * grid < (4 * x.significand + 2) * quarter := by
    have least : (4 * x.significand - x.below) * quarter + quarter ≤ 4 * x.significand * quarter := by
      have := x.below_bounds
      rw [← Nat.succ_mul]
      exact Nat.mul_le_mul_right _ (by omega)
    obtain ⟨above, below⟩ := nearest_step (4 * x.significand * quarter) gridPos
    rw [hfirst] at above below
    rw [Nat.add_mul]
    omega
  rw [if_pos (by simpa using Or.inl inside)]
  rfl

/-- The search ends on a grid with a decimal, if there is one before its fuel runs out. -/
theorem shortestFrom_some {fuel : ℕ} {least : ℤ} (found : (x.decimalAt? least).isSome)
    (above : least ≤ power) (near : power - least < fuel) :
    ∃ power', x.decimalAt? power' = some (x.shortestFrom fuel power) := by
  induction fuel generalizing power with
  | zero => exact absurd above (by omega)
  | succ fuel ih =>
    unfold shortestFrom
    cases here : x.decimalAt? power with
    | some d => exact ⟨power, here⟩
    | none =>
      have other : power ≠ least := by
        rintro rfl
        rw [here] at found
        cases found
      exact ih (by omega) (by omega)

/-- The shortest decimal of a number is one that rounds to it. -/
theorem rounds_shortest (x : Binary64) : x.Rounds x.shortest.value := by
  unfold shortest
  split
  next none =>
    refine Or.inr ⟨by rw [none], Or.inl ?_⟩
    rw [low, none]
    simp [Decimal.value]
  next filled =>
    have fine : (10 : ℚ) ^ (-325 : ℤ) ≤ 2 ^ (x.unit - 2) := by
      refine ten_zpow_le_two.trans (zpow_le_zpow_right₀ one_le_two ?_)
      have := x.le_unit
      omega
    obtain ⟨power, found⟩ := shortestFrom_some (decimalAt?_isSome filled fine)
      (show -325 ≤ 309 by decide) (show 309 - -325 < ((700 : ℕ) : ℤ) by decide)
    exact decimalAt?_rounds found

end ShiftFirst.Binary64
