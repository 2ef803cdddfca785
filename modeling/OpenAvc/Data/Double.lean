import Mathlib.Data.Int.Log
import Mathlib.Data.Rat.Floor
import Mathlib.Algebra.Order.Field.Power
import Mathlib.Order.WithBot
import Mathlib.Tactic.Linarith
import Mathlib.Tactic.Positivity
import Mathlib.Tactic.FieldSimp
import Mathlib.Tactic.Ring

/-! Rounding to the nearest double, ties going to the even one. -/

namespace Double

/-- The integer nearest to `q`. -/
def roundEven (q : ℚ) : ℤ :=
  if q - ⌊q⌋ < 1 / 2 then ⌊q⌋
  else if 1 / 2 < q - ⌊q⌋ then ⌊q⌋ + 1
  else if ⌊q⌋ % 2 = 0 then ⌊q⌋ else ⌊q⌋ + 1

/-- The exponent of `q`, that of the smallest normal double where `q` is below it. -/
def exponent (q : ℚ) : ℤ := if q = 0 then -1022 else max (Int.log 2 |q|) (-1022)

/-- How far apart the doubles at `q` are. -/
def ulp (q : ℚ) : ℚ := 2 ^ (exponent q - 52)

/-- The multiple of the distance that is nearest to `q`. -/
def onGrid (q : ℚ) : ℚ := roundEven (q / ulp q) * ulp q

/-- Numbers with the infinities. -/
abbrev Extended := WithBot (WithTop ℚ)

/-- The double nearest to `q`, infinite from `2 ^ 1024` on. -/
def nearest (q : ℚ) : Extended :=
  if 2 ^ 1024 ≤ onGrid q then ⊤
  else if onGrid q ≤ -2 ^ 1024 then ⊥
  else ((onGrid q : WithTop ℚ) : Extended)

/-- The double nearest to a number that may be infinite. -/
def rounded : Extended → Extended
  | ⊥ => ⊥
  | (⊤ : WithTop ℚ) => ⊤
  | ((q : ℚ) : WithTop ℚ) => nearest q

theorem le_roundEven {q : ℚ} {m : ℤ} (low : (m : ℚ) ≤ q) : m ≤ roundEven q := by
  have floor : m ≤ ⌊q⌋ := Int.le_floor.mpr low
  unfold roundEven
  split
  · exact floor
  · split
    · omega
    · split <;> omega

theorem roundEven_le {q : ℚ} {m : ℤ} (high : q ≤ m) : roundEven q ≤ m := by
  have floor : ⌊q⌋ ≤ m := by
    have below := Int.floor_le q
    exact_mod_cast below.trans high
  rcases floor.lt_or_eq with under | same
  · unfold roundEven
    split
    · exact floor
    · split
      · omega
      · split <;> omega
  · have integral : q - ⌊q⌋ < 1 / 2 := by
      rw [same]
      linarith
    unfold roundEven
    rw [if_pos integral]
    exact floor

theorem roundEven_mono {q q' : ℚ} (le : q ≤ q') : roundEven q ≤ roundEven q' := by
  have floors : ⌊q⌋ ≤ ⌊q'⌋ := Int.floor_le_floor le
  rcases floors.lt_or_eq with under | same
  · have upper : roundEven q ≤ ⌊q⌋ + 1 := roundEven_le (by push_cast; exact (Int.lt_floor_add_one q).le)
    have lower : ⌊q'⌋ ≤ roundEven q' := le_roundEven (Int.floor_le q')
    omega
  · have parts : q - ⌊q⌋ ≤ q' - ⌊q⌋ := by linarith
    unfold roundEven
    rw [← same]
    by_cases low : q' - ⌊q⌋ < 1 / 2
    · rw [if_pos (parts.trans_lt low), if_pos low]
    · rw [if_neg low]
      by_cases high : 1 / 2 < q' - ⌊q⌋
      · rw [if_pos high]
        split
        · omega
        · split
          · exact le_rfl
          · split <;> omega
      · rw [if_neg high]
        have notAbove : ¬1 / 2 < q - ⌊q⌋ := by linarith
        rw [if_neg notAbove]
        split <;> split <;> omega

theorem ulp_pos (q : ℚ) : 0 < ulp q := by
  unfold ulp
  positivity

theorem onGrid_le {q : ℚ} {m : ℤ} (high : q ≤ m * ulp q) : onGrid q ≤ m * ulp q := by
  have bound : roundEven (q / ulp q) ≤ m := roundEven_le ((div_le_iff₀ (ulp_pos q)).mpr high)
  have bound : (roundEven (q / ulp q) : ℚ) ≤ m := by exact_mod_cast bound
  exact mul_le_mul_of_nonneg_right bound (ulp_pos q).le

theorem le_onGrid {q : ℚ} {m : ℤ} (low : m * ulp q ≤ q) : m * ulp q ≤ onGrid q := by
  have bound : m ≤ roundEven (q / ulp q) := le_roundEven ((le_div_iff₀ (ulp_pos q)).mpr low)
  have bound : (m : ℚ) ≤ roundEven (q / ulp q) := by exact_mod_cast bound
  exact mul_le_mul_of_nonneg_right bound (ulp_pos q).le

theorem onGrid_eq {q : ℚ} {m : ℤ} (same : q = m * ulp q) : onGrid q = q := by
  have upper := onGrid_le same.le
  have lower := le_onGrid same.ge
  linarith

theorem exponent_ge (q : ℚ) : -1022 ≤ exponent q := by
  unfold exponent
  split <;> omega

theorem exponent_mono {q q' : ℚ} (le : |q| ≤ |q'|) : exponent q ≤ exponent q' := by
  by_cases zero : q = 0
  · have least : exponent q = -1022 := if_pos zero
    rw [least]
    exact exponent_ge q'
  · have positive := abs_pos.mpr zero
    have nonzero : q' ≠ 0 := abs_pos.mp (positive.trans_le le)
    have logs := Int.log_mono_right (b := 2) positive le
    unfold exponent
    rw [if_neg zero, if_neg nonzero]
    exact max_le_max logs le_rfl

theorem abs_le_exponent (q : ℚ) : |q| ≤ 2 ^ (exponent q + 1) := by
  by_cases zero : q = 0
  · rw [zero, abs_zero]
    positivity
  · have below := Int.lt_zpow_succ_log_self one_lt_two |q|
    have larger : Int.log 2 |q| + 1 ≤ exponent q + 1 := by
      unfold exponent
      rw [if_neg zero]
      omega
    have power : (2 : ℚ) ^ (Int.log 2 |q| + 1) ≤ 2 ^ (exponent q + 1) := zpow_le_zpow_right₀ one_le_two larger
    push_cast at below
    exact below.le.trans power

theorem exponent_le_abs {q : ℚ} (normal : -1022 < exponent q) : 2 ^ exponent q ≤ |q| := by
  by_cases zero : q = 0
  · have least : exponent q = -1022 := if_pos zero
    omega
  · have log : exponent q = Int.log 2 |q| := by
      unfold exponent at normal ⊢
      rw [if_neg zero] at normal ⊢
      omega
    rw [log]
    exact_mod_cast Int.zpow_log_le_self one_lt_two (abs_pos.mpr zero)

theorem two_pow_ulp (q : ℚ) (n : ℕ) : ((2 ^ n : ℤ) : ℚ) * ulp q = 2 ^ (exponent q - 52 + n) := by
  unfold ulp
  rw [zpow_add₀ two_ne_zero, zpow_natCast]
  push_cast
  ring

/-- The multiples of a power of two that are not too large are doubles. -/
theorem onGrid_of_multiple {d : ℚ} {k j : ℤ} (multiple : d = k * 2 ^ j) (fine : -1074 ≤ j) (small : |d| ≤ 2 ^ (j + 53)) :
    onGrid d = d := by
  by_cases coarse : exponent d - 52 ≤ j
  · obtain ⟨n, steps⟩ := Int.le.dest coarse
    have scaled : d = ((k * 2 ^ n : ℤ) : ℚ) * ulp d := by
      rw [Int.cast_mul, mul_assoc, two_pow_ulp, steps]
      exact multiple
    exact onGrid_eq scaled
  · have normal : -1022 < exponent d := by omega
    have large := exponent_le_abs normal
    have bound : (2 : ℚ) ^ (j + 53) ≤ 2 ^ exponent d := zpow_le_zpow_right₀ one_le_two (by omega)
    have least : (2 : ℚ) ^ exponent d = |d| := le_antisymm large (small.trans bound)
    have scale : ((2 ^ 52 : ℤ) : ℚ) * ulp d = |d| := by
      rw [two_pow_ulp, ← least]
      congr 1
      norm_num
    rcases abs_choice d with positive | negative
    · exact onGrid_eq (scale.trans positive).symm
    · have scaled : d = ((-2 ^ 52 : ℤ) : ℚ) * ulp d := by
        push_cast at scale ⊢
        linarith
      exact onGrid_eq scaled

theorem onGrid_nonneg {q : ℚ} (nonneg : 0 ≤ q) : 0 ≤ onGrid q := by
  have bound := le_onGrid (q := q) (m := 0) (by simpa using nonneg)
  simpa using bound

theorem onGrid_nonpos {q : ℚ} (nonpos : q ≤ 0) : onGrid q ≤ 0 := by
  have bound := onGrid_le (q := q) (m := 0) (by simpa using nonpos)
  simpa using bound

/-- A number and its double lie within the same power of two. -/
theorem abs_onGrid_le (q : ℚ) : |onGrid q| ≤ 2 ^ (exponent q + 1) := by
  have bounds := abs_le.mp (abs_le_exponent q)
  have top : ((2 ^ 53 : ℤ) : ℚ) * ulp q = 2 ^ (exponent q + 1) := by
    rw [two_pow_ulp]
    congr 1
    push_cast
    ring
  have upper := onGrid_le (q := q) (m := 2 ^ 53) (by rw [top]; exact bounds.2)
  have lower := le_onGrid (q := q) (m := -2 ^ 53) (by push_cast at top ⊢; linarith)
  rw [abs_le]
  push_cast at top upper lower
  constructor <;> linarith

theorem exponent_le_abs_onGrid {q : ℚ} (normal : -1022 < exponent q) : 2 ^ exponent q ≤ |onGrid q| := by
  have large := exponent_le_abs normal
  have least : ((2 ^ 52 : ℤ) : ℚ) * ulp q = 2 ^ exponent q := by
    rw [two_pow_ulp]
    congr 1
    norm_num
  rcases le_total 0 q with nonneg | nonpos
  · rw [abs_of_nonneg nonneg] at large
    rw [abs_of_nonneg (onGrid_nonneg nonneg)]
    have lower := le_onGrid (q := q) (m := 2 ^ 52) (by rw [least]; exact large)
    rwa [least] at lower
  · rw [abs_of_nonpos nonpos] at large
    rw [abs_of_nonpos (onGrid_nonpos nonpos)]
    have upper := onGrid_le (q := q) (m := -2 ^ 52) (by push_cast at least ⊢; linarith)
    push_cast at least upper
    linarith

theorem onGrid_mono {q q' : ℚ} (le : q ≤ q') : onGrid q ≤ onGrid q' := by
  rcases lt_trichotomy (exponent q) (exponent q') with rising | same | falling
  · have bound : (2 : ℚ) ^ (exponent q + 1) ≤ 2 ^ exponent q' := zpow_le_zpow_right₀ one_le_two (by omega)
    have small := (abs_onGrid_le q).trans bound
    have normal : -1022 < exponent q' := by
      have := exponent_ge q
      omega
    have large := exponent_le_abs_onGrid normal
    rcases le_total 0 q' with nonneg | nonpos
    · rw [abs_of_nonneg (onGrid_nonneg nonneg)] at large
      exact (le_abs_self _).trans (small.trans large)
    · -- the larger number would be the one nearer to zero
      have power := exponent_mono (abs_le_abs_of_nonpos nonpos le)
      omega
  · have grid : ulp q = ulp q' := by
      unfold ulp
      rw [same]
    unfold onGrid
    rw [grid]
    have quotient : q / ulp q' ≤ q' / ulp q' := div_le_div_of_nonneg_right le (ulp_pos q').le
    have step : (roundEven (q / ulp q') : ℚ) ≤ roundEven (q' / ulp q') := by exact_mod_cast roundEven_mono quotient
    exact mul_le_mul_of_nonneg_right step (ulp_pos q').le
  · have bound : (2 : ℚ) ^ (exponent q' + 1) ≤ 2 ^ exponent q := zpow_le_zpow_right₀ one_le_two (by omega)
    have small := (abs_onGrid_le q').trans bound
    have normal : -1022 < exponent q := by
      have := exponent_ge q'
      omega
    have large := exponent_le_abs_onGrid normal
    rcases le_total q 0 with nonpos | nonneg
    · rw [abs_of_nonpos (onGrid_nonpos nonpos)] at large
      have below := (abs_le.mp small).1
      linarith
    · have power := exponent_mono (abs_le_abs_of_nonneg nonneg le)
      omega

theorem onGrid_onGrid (q : ℚ) : onGrid (onGrid q) = onGrid q := by
  have fine : -1074 ≤ exponent q - 52 := by
    have := exponent_ge q
    omega
  have small : |onGrid q| ≤ 2 ^ (exponent q - 52 + 53) := by
    convert abs_onGrid_le q using 2
    ring
  exact onGrid_of_multiple rfl fine small

theorem nearest_mono {q q' : ℚ} (le : q ≤ q') : nearest q ≤ nearest q' := by
  have grid := onGrid_mono le
  unfold nearest
  by_cases high : 2 ^ 1024 ≤ onGrid q'
  · rw [if_pos high]
    exact le_top
  · rw [if_neg high, if_neg (fun above => high (above.trans grid))]
    by_cases low : onGrid q ≤ -2 ^ 1024
    · rw [if_pos low]
      exact bot_le
    · rw [if_neg low, if_neg (fun below => low (grid.trans below))]
      exact_mod_cast grid

theorem rounded_mono {x y : Extended} (le : x ≤ y) : rounded x ≤ rounded y := by
  match x, y with
  | ⊥, _ => exact bot_le
  | _, (⊤ : WithTop ℚ) => exact le_top
  | (⊤ : WithTop ℚ), ((q : ℚ) : WithTop ℚ) => exact absurd le (by simp)
  | (_ : WithTop ℚ), ⊥ => exact absurd le (by simp)
  | ((q : ℚ) : WithTop ℚ), ((q' : ℚ) : WithTop ℚ) => exact nearest_mono (by exact_mod_cast le)

theorem rounded_nearest (q : ℚ) : rounded (nearest q) = nearest q := by
  unfold nearest
  split
  · rfl
  · split
    · rfl
    · rename_i low high
      have again : nearest (onGrid q) = ((onGrid q : WithTop ℚ) : Extended) := by
        unfold nearest
        rw [onGrid_onGrid, if_neg low, if_neg high]
      exact again

/-- Rounding twice is rounding once. -/
theorem rounded_rounded (x : Extended) : rounded (rounded x) = rounded x := by
  match x with
  | ⊥ => rfl
  | (⊤ : WithTop ℚ) => rfl
  | ((q : ℚ) : WithTop ℚ) => exact rounded_nearest q

/-- Integers up to `2 ^ 53` are doubles. -/
theorem nearest_int {n : ℤ} (small : |n| ≤ 2 ^ 53) : nearest n = (((n : ℚ) : WithTop ℚ) : Extended) := by
  have bound : |(n : ℚ)| ≤ 2 ^ 53 := by exact_mod_cast small
  have grid : onGrid (n : ℚ) = n := onGrid_of_multiple (k := n) (j := 0) (by simp) (by omega) (by exact_mod_cast bound)
  have range := abs_le.mp bound
  have far : (2 : ℚ) ^ 53 < 2 ^ 1024 := pow_lt_pow_right₀ one_lt_two (by omega)
  have low : ¬2 ^ 1024 ≤ (n : ℚ) := not_le.mpr (range.2.trans_lt far)
  have high : ¬(n : ℚ) ≤ -2 ^ 1024 := not_le.mpr ((neg_lt_neg far).trans_le range.1)
  unfold nearest
  rw [grid, if_neg low, if_neg high]

end Double
