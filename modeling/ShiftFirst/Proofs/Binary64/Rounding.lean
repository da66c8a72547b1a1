import Mathlib.Algebra.Order.Field.Power
import Mathlib.Algebra.Order.Field.Rat
import Mathlib.Tactic.FieldSimp
import Mathlib.Tactic.Linarith
import Mathlib.Tactic.NormNum
import Mathlib.Tactic.Positivity
import Mathlib.Tactic.Qify
import Mathlib.Tactic.Ring
import ShiftFirst.Binary64.Decimal

namespace ShiftFirst

/-- A power is split into one that multiplies and one that divides. -/
theorem pow_toNat_neg {base : ℚ} (filled : base ≠ 0) (z : ℤ) :
    base ^ (-z).toNat * base ^ z = base ^ z.toNat := by
  rw [← zpow_natCast, ← zpow_add₀ filled, ← zpow_natCast]
  congr 1
  omega

namespace Decimal

/-- The number that a decimal is. -/
def value (d : Decimal) : ℚ := d.digits * 10 ^ d.exponent

/-- The digits of the decimal without leading zeros. -/
def length (d : Decimal) : ℕ := (Nat.toDigits 10 d.digits).length

theorem value_lt (d : Decimal) : d.value < 10 ^ (d.exponent + d.length) := by
  have bound : d.digits < 10 ^ d.length :=
    (Nat.length_toDigits_le_iff (by decide) Nat.length_toDigits_pos).mp le_rfl
  have bound : (d.digits : ℚ) < 10 ^ (d.length : ℤ) := by exact_mod_cast bound
  rw [add_comm, zpow_add₀ (by decide)]
  exact mul_lt_mul_of_pos_right bound (zpow_pos (by decide) _)

theorem le_value {d : Decimal} (filled : d.digits ≠ 0) :
    10 ^ (d.exponent + d.length - 1) ≤ d.value := by
  have bound : 10 ^ (d.length - 1) ≤ d.digits := by
    by_contra short
    rcases Nat.eq_zero_or_pos (d.length - 1) with none | some
    · rw [none] at short
      omega
    · have fewer := (Nat.length_toDigits_le_iff (by decide) some).mpr (not_le.mp short)
      change d.length ≤ d.length - 1 at fewer
      omega
  have bound : (10 : ℚ) ^ ((d.length - 1 : ℕ) : ℤ) ≤ d.digits := by exact_mod_cast bound
  have pos : 0 < d.length := Nat.length_toDigits_pos
  rw [show d.exponent + d.length - 1 = (d.length - 1 : ℕ) + d.exponent by omega,
    zpow_add₀ (by decide)]
  exact mul_le_mul_of_nonneg_right bound (zpow_pos (by decide) _).le

end Decimal

namespace Binary64

variable {x : Binary64} {v : ℚ} {a b n : ℕ}

section Format

theorem significand_lt (x : Binary64) : x.significand < 2 ^ 53 := by
  unfold significand
  simp only [Nat.pow_eq]
  split <;> omega

theorem le_unit (x : Binary64) : -1074 ≤ x.unit := by
  unfold unit
  omega

theorem le_significand (above : -1074 < x.unit) : 2 ^ 52 ≤ x.significand := by
  unfold unit at above
  unfold significand
  simp only [Nat.pow_eq]
  split <;> omega

theorem magnitude_eq (x : Binary64) :
    x.magnitude = (x.unit + 1074).toNat * 2 ^ 52 + x.significand := by
  unfold unit significand exponentField
  simp only [Nat.pow_eq]
  split <;> omega

theorem unit_le (finite : x.magnitude < infiniteMagnitude) : x.unit ≤ 971 := by
  unfold infiniteMagnitude at finite
  unfold unit exponentField
  simp only [Nat.pow_eq] at finite ⊢
  omega

theorem magnitude_lt (x : Binary64) : x.magnitude < 2 ^ 63 := Nat.mod_lt _ (Nat.two_pow_pos 63)

theorem ofMagnitude_magnitude (x : Binary64) : ofMagnitude x.negative x.magnitude = x := by
  have bits := x.bits.toNat_lt
  have total : (if x.negative then Nat.pow 2 63 else 0) + x.magnitude = x.bits.toNat := by
    unfold negative magnitude
    simp only [Nat.pow_eq, decide_eq_true_eq]
    split <;> omega
  rw [ofMagnitude, total, UInt64.ofNat_toNat]

theorem neg_ofMagnitude {m : ℕ} (small : m < 2 ^ 63) :
    (ofMagnitude false m).neg = ofMagnitude true m := by
  have bits : (ofMagnitude false m).bits.toNat = m := by
    rw [ofMagnitude, if_neg Bool.false_ne_true, Nat.zero_add]
    exact UInt64.toNat_ofNat_of_lt' (small.trans (by decide))
  have positive : (ofMagnitude false m).negative = false := by
    rw [negative, bits]
    exact decide_eq_false (not_le.mpr small)
  have same : (ofMagnitude false m).magnitude = m := by
    rw [magnitude, bits]
    exact Nat.mod_eq_of_lt small
  rw [neg, positive, same]
  rfl

theorem lt_infiniteMagnitude (number : x.isNaN = false) (finite : x.isInfinite = false) :
    x.magnitude < infiniteMagnitude :=
  lt_of_le_of_ne (not_lt.mp (of_decide_eq_false number)) (of_decide_eq_false finite)

end Format

/-- The quarters of a unit below the number that round to it. Below a power of two the numbers are
twice as close. -/
def below (x : Binary64) : ℕ := if x.significand = 2 ^ 52 then 1 else 2

/-- The lower end of the interval of what rounds to the number. -/
def low (x : Binary64) : ℚ := (4 * x.significand - x.below : ℕ) * 2 ^ (x.unit - 2)

/-- The upper end of the interval of what rounds to the number. -/
def high (x : Binary64) : ℚ := (4 * x.significand + 2 : ℕ) * 2 ^ (x.unit - 2)

/-- The number is the one to round to. -/
def Rounds (x : Binary64) (v : ℚ) : Prop :=
  x.low < v ∧ v < x.high ∨ x.significand % 2 = 0 ∧ (v = x.low ∨ v = x.high)

theorem divideToEven_eq (pos : 0 < b) (least : 2 * n * b ≤ 2 * a + b)
    (most : 2 * a ≤ 2 * n * b + b)
    (even : n % 2 = 0 ∨ 2 * n * b < 2 * a + b ∧ 2 * a < 2 * n * b + b) :
    divideToEven a b = n := by
  have divided := Nat.div_add_mod a b
  have rest := Nat.mod_lt a pos
  unfold divideToEven
  dsimp only
  generalize a / b = q at divided ⊢
  generalize a % b = r at divided rest ⊢
  subst divided
  have above : n ≤ q + 1 := by
    by_contra beyond
    have := Nat.mul_le_mul_right b (show q + 2 ≤ n by omega)
    linarith
  have below : q ≤ n := by
    by_contra beyond
    have := Nat.mul_le_mul_right b (show n + 1 ≤ q by omega)
    linarith
  rcases Nat.lt_or_ge q n with less | more
  · obtain rfl : n = q + 1 := by omega
    have half : b ≤ 2 * r := by linarith
    refine if_neg ?_
    rintro (less | ⟨tie, evenBelow⟩)
    · omega
    · rcases even with even | ⟨strict, _⟩
      · omega
      · have : b < 2 * r := by linarith
        omega
  · obtain rfl : n = q := by omega
    have half : 2 * r ≤ b := by linarith
    refine if_pos ?_
    rcases even with even | ⟨_, strict⟩
    · omega
    · have : 2 * r < b := by linarith
      omega

/-- A quotient is rounded to the whole number that is at most a half away, if that is even or less
than a half away. -/
theorem divideToEven_of_near {r : ℚ} (pos : 0 < b) (ratio : (a : ℚ) = r * b)
    (least : 2 * n - 1 ≤ 2 * r) (most : 2 * r ≤ 2 * n + 1)
    (even : n % 2 = 0 ∨ 2 * n - 1 < 2 * r ∧ 2 * r < 2 * n + 1) : divideToEven a b = n := by
  have positive : (0 : ℚ) < b := Nat.cast_pos.mpr pos
  refine divideToEven_eq pos ?_ ?_ (even.imp_right fun ⟨strict, strict'⟩ => ⟨?_, ?_⟩)
  · have := mul_le_mul_of_nonneg_right least positive.le
    qify
    linarith
  · have := mul_le_mul_of_nonneg_right most positive.le
    qify
    linarith
  · have := mul_lt_mul_of_pos_right strict positive
    qify
    linarith
  · have := mul_lt_mul_of_pos_right strict' positive
    qify
    linarith

theorem two_zpow_pos (z : ℤ) : (0 : ℚ) < 2 ^ z := zpow_pos two_pos z

theorem two_zpow_add (z : ℤ) (more : ℤ) : (2 : ℚ) ^ (z + more) = 2 ^ more * 2 ^ z := by
  rw [zpow_add₀ two_ne_zero, mul_comm]

theorem pow_log2_le (pos : 0 < a) : (2 : ℚ) ^ (a.log2 : ℤ) ≤ a := by
  rw [zpow_natCast]
  exact_mod_cast Nat.log2_self_le pos.ne'

theorem lt_pow_log2 (a : ℕ) : (a : ℚ) < 2 ^ ((a.log2 : ℤ) + 1) := by
  have bound : a < 2 ^ (a.log2 + 1) := Nat.lt_log2_self
  exact_mod_cast bound

/-- The quotient of two numbers lies between the powers that their lengths tell. -/
theorem quotient_bounds (ha : 0 < a) (hb : 0 < b) :
    2 ^ 52 * (2 : ℚ) ^ ((a.log2 : ℤ) - b.log2 - 53) < a / b ∧
      (a / b : ℚ) < 2 ^ 54 * 2 ^ ((a.log2 : ℤ) - b.log2 - 53) := by
  have positive : (0 : ℚ) < b := Nat.cast_pos.mpr hb
  have unitPos := two_zpow_pos ((a.log2 : ℤ) - b.log2 - 53)
  have ha := pow_log2_le ha
  have ha' := lt_pow_log2 a
  have hb := pow_log2_le hb
  have hb' := lt_pow_log2 b
  have split : (2 : ℚ) ^ (a.log2 : ℤ) =
      2 ^ 53 * 2 ^ ((a.log2 : ℤ) - b.log2 - 53) * 2 ^ (b.log2 : ℤ) := by
    rw [← zpow_natCast 2 53, ← two_zpow_add, ← zpow_add₀ two_ne_zero]
    congr 1
    push_cast
    omega
  rw [two_zpow_add _ 1, zpow_one] at ha' hb'
  rw [split] at ha ha'
  rw [lt_div_iff₀ positive, div_lt_iff₀ positive]
  have := mul_lt_mul_of_pos_left hb' unitPos
  have := mul_le_mul_of_nonneg_left hb unitPos.le
  constructor <;> linarith

/-- Numerator and denominator are counted in a unit by shifting one of them. -/
theorem scaled_ratio (hb : 0 < b) (a : ℕ) (unit : ℤ) : ((a * 2 ^ (-unit).toNat : ℕ) : ℚ) =
    a / b / 2 ^ unit * (b * 2 ^ unit.toNat : ℕ) := by
  have positive : (b : ℚ) ≠ 0 := Nat.cast_ne_zero.mpr hb.ne'
  have unitPos := two_zpow_pos unit
  push_cast
  rw [← pow_toNat_neg two_ne_zero unit]
  field_simp

theorem scaled_div_lt_iff (hb : 0 < b) (a n : ℕ) (unit : ℤ) :
    a * 2 ^ (-unit).toNat / (b * 2 ^ unit.toNat) < n ↔ (a / b : ℚ) < n * 2 ^ unit := by
  have scaled := scaled_ratio hb a unit
  have pos : 0 < b * 2 ^ unit.toNat := Nat.mul_pos hb (Nat.two_pow_pos _)
  generalize a * 2 ^ (-unit).toNat = p, b * 2 ^ unit.toNat = q at scaled pos ⊢
  rw [Nat.div_lt_iff_lt_mul pos, ← Nat.cast_lt (α := ℚ), scaled, Nat.cast_mul,
    mul_lt_mul_iff_left₀ (Nat.cast_pos.mpr pos), div_lt_iff₀ (two_zpow_pos unit)]

/-- Rounding finds the unit for a significand of full length, unless that is below the least one,
and counts in it. -/
theorem nearestMagnitude_unit (ha : 0 < a) (hb : 0 < b) :
    ∃ (unit : ℤ) (p q : ℕ), -1074 ≤ unit ∧ (a / b : ℚ) < 2 ^ 53 * 2 ^ unit ∧
      (-1074 < unit → 2 ^ 52 * 2 ^ unit ≤ (a / b : ℚ)) ∧
      0 < q ∧ (p : ℚ) = a / b / 2 ^ unit * q ∧
      nearestMagnitude a b =
        min infiniteMagnitude ((unit + 1074).toNat * 2 ^ 52 + divideToEven p q) := by
  obtain ⟨least, most⟩ := quotient_bounds ha hb
  unfold nearestMagnitude
  simp only [Nat.pow_eq]
  generalize (a.log2 : ℤ) - b.log2 - 53 = guess at least most ⊢
  -- The guess is the unit or one less.
  have short := scaled_div_lt_iff hb a (2 ^ 53) guess
  rw [Nat.cast_pow, Nat.cast_ofNat] at short
  have double := two_zpow_add guess 1
  rw [zpow_one] at double
  have full : ∃ unit, (if a * 2 ^ (-guess).toNat / (b * 2 ^ guess.toNat) < 2 ^ 53 then guess
      else guess + 1) = unit ∧ (a / b : ℚ) < 2 ^ 53 * 2 ^ unit ∧
        2 ^ 52 * 2 ^ unit ≤ (a / b : ℚ) := by
    refine ⟨_, rfl, ?_⟩
    split
    next fits => exact ⟨short.mp fits, least.le⟩
    next fails =>
      have above := not_lt.mp (mt short.mpr fails)
      rw [double]
      constructor <;> linarith
  obtain ⟨unit, hunit, below, above⟩ := full
  rw [hunit]
  refine ⟨max (-1074) unit, _, _, le_max_left _ _, ?_, fun normal => ?_,
    Nat.mul_pos hb (Nat.two_pow_pos _), scaled_ratio hb a _, rfl⟩
  · have grows : (2 : ℚ) ^ unit ≤ 2 ^ max (-1074) unit :=
      zpow_le_zpow_right₀ one_le_two (le_max_right _ _)
    linarith
  · rwa [max_eq_right (le_of_not_ge fun small => absurd normal (by omega))]

section Interval

theorem four_quarters (z : ℤ) : (2 : ℚ) ^ z = 4 * 2 ^ (z - 2) := by
  have four := two_zpow_add (z - 2) 2
  rw [sub_add_cancel] at four
  rw [four]
  norm_num

theorem four_high (x : Binary64) : 4 * x.high = (4 * x.significand + 2) * 2 ^ x.unit := by
  rw [high, four_quarters x.unit]
  push_cast
  ring

theorem below_bounds (x : Binary64) : 0 < x.below ∧ x.below ≤ 2 := by
  unfold below
  split <;> decide

theorem le_four_low (x : Binary64) : (4 * x.significand - 2) * 2 ^ x.unit ≤ 4 * x.low := by
  have most : 4 * x.significand ≤ (4 * x.significand - x.below) + 2 := by
    have := x.below_bounds
    omega
  have most : (4 * x.significand : ℚ) ≤ (4 * x.significand - x.below : ℕ) + 2 := by
    exact_mod_cast most
  have := mul_le_mul_of_nonneg_right most (two_zpow_pos (x.unit - 2)).le
  rw [low, four_quarters x.unit]
  linarith

theorem four_low (power : x.significand = 2 ^ 52) : 4 * x.low = (2 ^ 54 - 1) * 2 ^ x.unit := by
  rw [low, below, if_pos power, power, four_quarters x.unit]
  norm_num
  ring

theorem low_lt_high (x : Binary64) : x.low < x.high := by
  refine mul_lt_mul_of_pos_right (Nat.cast_lt.mpr ?_) (two_zpow_pos _)
  omega

theorem Rounds.least (h : x.Rounds v) : x.low ≤ v := by
  rcases h with ⟨inside, _⟩ | ⟨_, rfl | rfl⟩
  · exact inside.le
  · exact le_rfl
  · exact x.low_lt_high.le

theorem Rounds.most (h : x.Rounds v) : v ≤ x.high := by
  rcases h with ⟨_, inside⟩ | ⟨_, rfl | rfl⟩
  · exact inside.le
  · exact x.low_lt_high.le
  · exact le_rfl

/-- The unit that rounding finds is that of the number, but for what is rounded up to a power of
two. -/
theorem Rounds.unit_cases (h : x.Rounds v) {unit : ℤ} (least : -1074 ≤ unit)
    (below : v < 2 ^ 53 * 2 ^ unit) (above : -1074 < unit → 2 ^ 52 * 2 ^ unit ≤ v) :
    unit = x.unit ∨ unit + 1 = x.unit ∧ x.significand = 2 ^ 52 := by
  have lower := x.le_four_low
  have upper := x.four_high
  have unitPos := two_zpow_pos x.unit
  have hlow := h.least
  have hhigh := h.most
  rcases Int.lt_trichotomy unit x.unit with less | same | more
  · have full : (2 : ℚ) ^ 52 ≤ x.significand := by
      exact_mod_cast le_significand (by omega : -1074 < x.unit)
    have smaller : (2 : ℚ) ^ (unit + 1) ≤ 2 ^ x.unit :=
      zpow_le_zpow_right₀ one_le_two (by omega)
    rw [two_zpow_add, zpow_one] at smaller
    have power : x.significand = 2 ^ 52 := by
      by_contra other
      have more : 2 ^ 52 + 1 ≤ x.significand := by
        have := le_significand (by omega : -1074 < x.unit)
        omega
      have more : (2 : ℚ) ^ 52 + 1 ≤ x.significand := by exact_mod_cast more
      have := mul_le_mul_of_nonneg_right more unitPos.le
      linarith
    refine Or.inr ⟨?_, power⟩
    by_contra other
    have smaller : (2 : ℚ) ^ (unit + 2) ≤ 2 ^ x.unit :=
      zpow_le_zpow_right₀ one_le_two (by omega)
    rw [two_zpow_add] at smaller
    rw [power] at lower
    norm_num at smaller lower
    linarith
  · exact Or.inl same
  · exfalso
    have greater : (2 : ℚ) ^ (x.unit + 1) ≤ 2 ^ unit :=
      zpow_le_zpow_right₀ one_le_two (by omega)
    rw [two_zpow_add, zpow_one] at greater
    have short : x.significand + 1 ≤ 2 ^ 53 := x.significand_lt
    have short : (x.significand + 1 : ℚ) ≤ 2 ^ 53 := by exact_mod_cast short
    have := mul_le_mul_of_nonneg_right short unitPos.le
    have := above (by have := x.le_unit; omega)
    linarith

/-- What rounds to a number is at most a half of its unit away. -/
theorem Rounds.near {r : ℚ} (h : x.Rounds (r * 2 ^ x.unit)) :
    2 * x.significand - 1 ≤ 2 * r ∧ 2 * r ≤ 2 * x.significand + 1 ∧
      (x.significand % 2 = 0 ∨ 2 * x.significand - 1 < 2 * r ∧ 2 * r < 2 * x.significand + 1) := by
  have unitPos := two_zpow_pos x.unit
  have quadruple := mul_assoc 4 r (2 ^ x.unit)
  have lower := x.le_four_low.trans (mul_le_mul_of_nonneg_left h.least zero_le_four)
  have upper := (mul_le_mul_of_nonneg_left h.most zero_le_four).trans_eq x.four_high
  have lower := le_of_mul_le_mul_right (lower.trans_eq quadruple.symm) unitPos
  have upper := le_of_mul_le_mul_right (quadruple.trans_le upper) unitPos
  refine ⟨by linarith, by linarith, ?_⟩
  rcases h with ⟨inside, inside'⟩ | ⟨even, _⟩
  · have lower := x.le_four_low.trans_lt (mul_lt_mul_of_pos_left inside four_pos)
    have upper := (mul_lt_mul_of_pos_left inside' four_pos).trans_eq x.four_high
    have lower := lt_of_mul_lt_mul_right (lower.trans_eq quadruple.symm) unitPos.le
    have upper := lt_of_mul_lt_mul_right (quadruple.trans_lt upper) unitPos.le
    exact Or.inr ⟨by linarith, by linarith⟩
  · exact Or.inl even

/-- What rounds to a power of two from below is at most a half of the lesser unit away. -/
theorem Rounds.near_power {r : ℚ} {unit : ℤ} (h : x.Rounds (r * 2 ^ unit))
    (next : unit + 1 = x.unit) (power : x.significand = 2 ^ 52) : 2 ^ 55 - 2 ≤ 4 * r := by
  have lower := (four_low power).symm.trans_le (mul_le_mul_of_nonneg_left h.least zero_le_four)
  rw [← next, two_zpow_add, zpow_one] at lower
  refine le_of_mul_le_mul_right ?_ (two_zpow_pos unit)
  linarith

end Interval

theorem nearestMagnitude_eq (finite : x.magnitude < infiniteMagnitude) (ha : 0 < a) (hb : 0 < b)
    (h : x.Rounds (a / b)) : nearestMagnitude a b = x.magnitude := by
  obtain ⟨unit, p, q, least, below, above, pos, ratio, result⟩ := nearestMagnitude_unit ha hb
  have unitPos := two_zpow_pos unit
  have scaled : (a / b / 2 ^ unit * 2 ^ unit : ℚ) = a / b := div_mul_cancel₀ _ unitPos.ne'
  generalize (a / b / 2 ^ unit : ℚ) = r at ratio scaled
  rw [← scaled] at h below above
  have counted : divideToEven p q = (x.unit - unit).toNat * 2 ^ 52 + x.significand := by
    rcases h.unit_cases least below above with rfl | ⟨next, power⟩
    · obtain ⟨least, most, even⟩ := h.near
      rw [Int.sub_self, Int.toNat_zero, Nat.zero_mul, Nat.zero_add]
      exact divideToEven_of_near pos ratio least most even
    · have least := h.near_power next power
      have most := lt_of_mul_lt_mul_right below unitPos.le
      rw [power, ← next, add_sub_cancel_left]
      refine divideToEven_of_near pos ratio ?_ ?_ (Or.inl (by decide)) <;> norm_num <;> linarith
  have unit_le : unit ≤ x.unit := by
    rcases h.unit_cases least below above with rfl | ⟨next, _⟩ <;> omega
  rw [result, counted]
  have total : (unit + 1074).toNat * 2 ^ 52 + ((x.unit - unit).toNat * 2 ^ 52 + x.significand) =
      x.magnitude := by
    rw [magnitude_eq]
    omega
  rw [total, min_eq_right finite.le]

/-- The powers of two that are numbers are within the reach of the decimals. -/
theorem two_zpow_le_ten : (2 : ℚ) ^ (1076 : ℤ) ≤ 10 ^ (325 : ℤ) := by
  have reach : 2 ^ 1076 ≤ 10 ^ 325 := by decide +kernel
  exact_mod_cast reach

theorem ten_zpow_le_two : (10 : ℚ) ^ (-325 : ℤ) ≤ 2 ^ (-1076 : ℤ) := by
  rw [zpow_neg, zpow_neg]
  exact inv_anti₀ (zpow_pos two_pos _) two_zpow_le_ten

theorem Rounds.magnitude_eq_zero (h : x.Rounds v) (small : v < 2 ^ (-1076 : ℤ)) :
    x.magnitude = 0 := by
  have least : (2 : ℚ) ^ (-1076 + 2 : ℤ) ≤ 2 ^ x.unit :=
    zpow_le_zpow_right₀ one_le_two x.le_unit
  rw [two_zpow_add] at least
  have lower := x.le_four_low.trans (mul_le_mul_of_nonneg_left h.least zero_le_four)
  have none : x.significand = 0 := by
    by_contra filled
    have filled : (1 : ℚ) ≤ x.significand := by exact_mod_cast Nat.pos_of_ne_zero filled
    have unitPos := two_zpow_pos x.unit
    have := mul_le_mul_of_nonneg_right filled unitPos.le
    rw [show (2 : ℚ) ^ (2 : ℤ) = 4 by norm_num] at least
    generalize (2 : ℚ) ^ (-1076 : ℤ) = tiny at least small
    linarith
  have := x.le_unit
  have := mt x.le_significand
  rw [magnitude_eq]
  omega

theorem Rounds.lt_ten (h : x.Rounds v) (finite : x.magnitude < infiniteMagnitude) :
    v < 10 ^ (325 : ℤ) := by
  have upper := (mul_le_mul_of_nonneg_left h.most zero_le_four).trans_eq x.four_high
  have most : (2 : ℚ) ^ x.unit ≤ 2 ^ (971 : ℤ) := zpow_le_zpow_right₀ one_le_two (unit_le finite)
  have reach : (2 : ℚ) ^ (971 + 53 : ℤ) ≤ 2 ^ (1076 : ℤ) := zpow_le_zpow_right₀ one_le_two (by decide)
  rw [two_zpow_add] at reach
  have short : x.significand + 1 ≤ 2 ^ 53 := x.significand_lt
  have short : (x.significand + 1 : ℚ) ≤ 2 ^ (53 : ℤ) := by exact_mod_cast short
  have bound := (mul_le_mul short most (two_zpow_pos _).le (two_zpow_pos _).le).trans
    (reach.trans two_zpow_le_ten)
  have unitPos := two_zpow_pos x.unit
  generalize (10 : ℚ) ^ (325 : ℤ) = ten at bound ⊢
  linarith

/-- What rounds to a number is read as that number. -/
theorem ofDecimal_eq {d : Decimal} (finite : x.magnitude < infiniteMagnitude)
    (h : x.Rounds d.value) : ofDecimal d = x.magnitude := by
  unfold ofDecimal
  dsimp only
  split
  next tiny =>
    refine (h.magnitude_eq_zero ?_).symm
    rcases tiny with none | short
    · rw [Decimal.value, none, Nat.cast_zero, zero_mul]
      exact two_zpow_pos _
    · refine d.value_lt.trans_le (le_trans ?_ ten_zpow_le_two)
      refine zpow_le_zpow_right₀ (by decide) ?_
      rw [Decimal.length]
      omega
  next filled =>
    obtain ⟨filled, _⟩ := not_or.mp filled
    split
    next long =>
      have reach : (10 : ℚ) ^ (325 : ℤ) ≤ 10 ^ (d.exponent + d.length - 1) := by
        refine zpow_le_zpow_right₀ (by decide) ?_
        rw [Decimal.length]
        omega
      exact absurd (h.lt_ten finite) (not_lt.mpr (reach.trans (Decimal.le_value filled)))
    next =>
      simp only [Nat.pow_eq]
      have ten (n : ℕ) : 0 < 10 ^ n := Nat.pow_pos (by decide)
      refine nearestMagnitude_eq finite (Nat.mul_pos (Nat.pos_of_ne_zero filled) (ten _)) (ten _) ?_
      have value : ((d.digits * 10 ^ d.exponent.toNat : ℕ) : ℚ) / (10 ^ (-d.exponent).toNat : ℕ) =
          d.value := by
        push_cast
        rw [← pow_toNat_neg (by decide), Decimal.value]
        field_simp
      rwa [value]

end Binary64

end ShiftFirst
