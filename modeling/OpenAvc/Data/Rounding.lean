import OpenAvc.Data.Double

/-! A double rounded to so many decimals. -/

namespace Double

/-- `round(q, n)` of a float: the double nearest to the decimal nearest to `q`. -/
def toDecimals (q : ℚ) (n : ℕ) : Extended :=
  nearest (roundEven (q * 10 ^ n) / 10 ^ n)

theorem roundEven_int (n : ℤ) : roundEven n = n :=
  le_antisymm (roundEven_le le_rfl) (le_roundEven le_rfl)

/-- The nearest integer is within a half. -/
theorem roundEven_near (q : ℚ) : (roundEven q : ℚ) - 1 / 2 ≤ q ∧ q ≤ roundEven q + 1 / 2 := by
  have low := Int.floor_le q
  have high := (Int.lt_floor_add_one q).le
  unfold roundEven
  split
  · constructor <;> linarith
  · split
    · push_cast
      constructor <;> linarith
    · split
      · constructor <;> linarith
      · push_cast
        constructor <;> linarith

theorem roundEven_eq {q : ℚ} {m : ℤ} (low : (m : ℚ) - 1 / 2 < q) (high : q < m + 1 / 2) : roundEven q = m := by
  obtain ⟨below, above⟩ := roundEven_near q
  have upper : ((roundEven q : ℤ) : ℚ) < ((m + 1 : ℤ) : ℚ) := by push_cast; linarith
  have lower : ((m - 1 : ℤ) : ℚ) < ((roundEven q : ℤ) : ℚ) := by push_cast; linarith
  have upper' : roundEven q < m + 1 := by exact_mod_cast upper
  have lower' : m - 1 < roundEven q := by exact_mod_cast lower
  omega

theorem finite_of_between {x : Extended} {a b : ℚ} (low : ((a : WithTop ℚ) : Extended) ≤ x)
    (high : x ≤ ((b : WithTop ℚ) : Extended)) : ∃ r : ℚ, x = ((r : WithTop ℚ) : Extended) := by
  obtain ⟨y, rfl⟩ := WithBot.ne_bot_iff_exists.mp (ne_bot_of_le_ne_bot WithBot.coe_ne_bot low)
  have high := WithBot.coe_le_coe.mp high
  obtain ⟨r, rfl⟩ := WithTop.ne_top_iff_exists.mp (ne_top_of_le_ne_top WithTop.coe_ne_top high)
  exact ⟨r, rfl⟩

theorem nearest_finite {q : ℚ} (small : |q| ≤ 2 ^ 53) : ∃ r : ℚ, nearest q = ((r : WithTop ℚ) : Extended) := by
  have range := abs_le.mp small
  have upper : nearest q ≤ nearest ((2 ^ 53 : ℤ) : ℚ) := nearest_mono (by push_cast; exact range.2)
  have lower : nearest ((-2 ^ 53 : ℤ) : ℚ) ≤ nearest q := nearest_mono (by push_cast; exact range.1)
  rw [nearest_int (by norm_num)] at upper lower
  exact finite_of_between lower upper

theorem onGrid_of_nearest {q r : ℚ} (exact : nearest q = ((r : WithTop ℚ) : Extended)) : onGrid q = r := by
  unfold nearest at exact
  split at exact
  · exact absurd exact nofun
  · split at exact
    · exact absurd exact (by simp)
    · exact_mod_cast exact

/-- A multiple of a power of two that is not too large is its own double. -/
theorem nearest_of_multiple {d : ℚ} {k j : ℤ} (multiple : d = k * 2 ^ j) (fine : -1074 ≤ j) (small : |d| ≤ 2 ^ (j + 53))
    (low : |d| < 2 ^ 1024) : nearest d = ((d : WithTop ℚ) : Extended) := by
  have range := abs_lt.mp low
  unfold nearest
  rw [onGrid_of_multiple multiple fine small, if_neg (not_le.mpr range.2), if_neg (not_le.mpr range.1)]

/-- From `2 ^ 52` on the doubles are integers. -/
theorem integral_of_large {q : ℚ} (grid : onGrid q = q) (large : 52 ≤ exponent q) : ∃ n : ℤ, q = n := by
  obtain ⟨k, steps⟩ := Int.le.dest large
  have unit : ulp q = ((2 ^ k : ℤ) : ℚ) := by
    have power : exponent q - 52 = k := by omega
    unfold ulp
    rw [power, zpow_natCast]
    push_cast
    rfl
  refine ⟨roundEven (q / ulp q) * 2 ^ k, ?_⟩
  calc q = onGrid q := grid.symm
    _ = roundEven (q / ulp q) * ulp q := rfl
    _ = ((roundEven (q / ulp q) * 2 ^ k : ℤ) : ℚ) := by rw [unit]; push_cast; rfl

/-- Rounding to decimals never leaves the doubles. -/
theorem toDecimals_finite {q : ℚ} (exact : nearest q = ((q : WithTop ℚ) : Extended)) (n : ℕ) :
    ∃ r : ℚ, toDecimals q n = ((r : WithTop ℚ) : Extended) := by
  have scale : (0 : ℚ) < 10 ^ n := by positivity
  by_cases large : 52 ≤ exponent q
  · obtain ⟨m, rfl⟩ := integral_of_large (onGrid_of_nearest exact) large
    have whole : roundEven ((m : ℚ) * 10 ^ n) = m * 10 ^ n := by
      have scaled := roundEven_int (m * 10 ^ n)
      push_cast at scaled
      exact scaled
    have same : ((roundEven ((m : ℚ) * 10 ^ n) : ℚ)) / 10 ^ n = m := by
      rw [whole]
      push_cast
      field_simp
    exact ⟨m, by rw [toDecimals, same, exact]⟩
  · have power : (2 : ℚ) ^ (exponent q + 1) ≤ 2 ^ (53 : ℤ) := zpow_le_zpow_right₀ one_le_two (by omega)
    have range := abs_le.mp ((abs_le_exponent q).trans power)
    have wide : (2 : ℚ) ^ (53 : ℤ) = 2 ^ 53 := by norm_num
    rw [wide] at range
    have upper : roundEven (q * 10 ^ n) ≤ 2 ^ 53 * 10 ^ n := by
      refine roundEven_le ?_
      push_cast
      exact mul_le_mul_of_nonneg_right range.2 scale.le
    have lower : -(2 ^ 53 * 10 ^ n) ≤ roundEven (q * 10 ^ n) := by
      refine le_roundEven ?_
      push_cast
      have scaled := mul_le_mul_of_nonneg_right range.1 scale.le
      linarith
    have upper : (roundEven (q * 10 ^ n) : ℚ) ≤ 2 ^ 53 * 10 ^ n := by exact_mod_cast upper
    have lower : -(2 ^ 53 * 10 ^ n) ≤ (roundEven (q * 10 ^ n) : ℚ) := by exact_mod_cast lower
    refine nearest_finite (abs_le.mpr ⟨?_, ?_⟩)
    · rw [le_div_iff₀ scale]
      linarith
    · rw [div_le_iff₀ scale]
      exact upper

end Double
