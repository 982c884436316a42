import Mathlib.Algebra.Order.Floor.Ring
import Mathlib.Data.Int.Log
import Mathlib.Data.Rat.Floor
import Mathlib.Tactic.Linarith
import Mathlib.Tactic.NormNum
import Mathlib.Tactic.Ring

/-! Rounding of rationals to a floating-point format.

A format has a precision and a least exponent. Rounding goes to the nearest multiple of the
quantum that belongs to the magnitude, and to the even one of two. It is monotone, also where
the quantum changes.
-/

set_option autoImplicit false

namespace Foundation

/-- The nearest integer, the even one of two. -/
def halfEven (x : ℚ) : ℤ :=
  if x - ⌊x⌋ < 1 / 2 then ⌊x⌋
  else if 1 / 2 < x - ⌊x⌋ then ⌊x⌋ + 1
  else if ⌊x⌋ % 2 = 0 then ⌊x⌋
  else ⌊x⌋ + 1

theorem halfEven_bounds (x : ℚ) : ⌊x⌋ ≤ halfEven x ∧ halfEven x ≤ ⌊x⌋ + 1 := by
  unfold halfEven
  split_ifs <;> omega

theorem halfEven_mono {x y : ℚ} (le : x ≤ y) : halfEven x ≤ halfEven y := by
  have floors : ⌊x⌋ ≤ ⌊y⌋ := Int.floor_le_floor le
  rcases floors.lt_or_eq with less | same
  · have upper := (halfEven_bounds x).2
    have lower := (halfEven_bounds y).1
    omega
  · unfold halfEven
    rw [same]
    split_ifs
    all_goals first | omega | (exfalso; linarith)

/-- Above the midpoint below an integer the result is no smaller than the integer. -/
theorem le_halfEven {x : ℚ} {n : ℤ} (above : (n : ℚ) - 1 / 2 < x) : n ≤ halfEven x := by
  have upper := Int.lt_floor_add_one x
  have floor : n - 1 ≤ ⌊x⌋ := by
    apply Int.le_floor.mpr
    push_cast
    linarith
  rcases floor.lt_or_eq with less | same
  · exact le_trans (by omega) (halfEven_bounds x).1
  · have fraction : 1 / 2 < x - ⌊x⌋ := by
      rw [← same]
      push_cast
      linarith
    unfold halfEven
    rw [if_neg (by linarith), if_pos fraction]
    omega

theorem halfEven_le {x : ℚ} {n : ℤ} (below : x < (n : ℚ) + 1 / 2) : halfEven x ≤ n := by
  have lower := Int.floor_le x
  have floor : ⌊x⌋ ≤ n := by
    have : ⌊x⌋ < n + 1 := by
      apply Int.floor_lt.mpr
      push_cast
      linarith
    omega
  rcases floor.lt_or_eq with less | same
  · exact le_trans (halfEven_bounds x).2 (by omega)
  · have fraction : x - ⌊x⌋ < 1 / 2 := by
      rw [same]
      linarith
    unfold halfEven
    rw [if_pos fraction]
    exact floor

/-- An even integer takes the midpoints next to it. -/
theorem le_halfEven_of_even {x : ℚ} {n : ℤ} (even : n % 2 = 0) (above : (n : ℚ) - 1 / 2 ≤ x) : n ≤ halfEven x := by
  rcases above.lt_or_eq with strictly | midpoint
  · exact le_halfEven strictly
  · have floor : ⌊x⌋ = n - 1 := by
      apply Int.floor_eq_iff.mpr
      push_cast
      constructor <;> linarith
    have fraction : x - ⌊x⌋ = 1 / 2 := by
      rw [floor, ← midpoint]
      push_cast
      ring
    unfold halfEven
    rw [fraction, if_neg (lt_irrefl _), if_neg (lt_irrefl _), if_neg (by omega)]
    omega

theorem halfEven_le_of_even {x : ℚ} {n : ℤ} (even : n % 2 = 0) (below : x ≤ (n : ℚ) + 1 / 2) : halfEven x ≤ n := by
  rcases below.lt_or_eq with strictly | midpoint
  · exact halfEven_le strictly
  · have floor : ⌊x⌋ = n := by
      apply Int.floor_eq_iff.mpr
      constructor <;> linarith
    have fraction : x - ⌊x⌋ = 1 / 2 := by
      rw [floor, midpoint]
      ring
    unfold halfEven
    rw [fraction, if_neg (lt_irrefl _), if_neg (lt_irrefl _), if_pos (by omega)]
    omega

@[simp] theorem halfEven_intCast (n : ℤ) : halfEven (n : ℚ) = n :=
  le_antisymm (halfEven_le (by linarith)) (le_halfEven (by linarith))

/-! ## Formats -/

section Format
variable (precision : ℕ) (least : ℤ)

/-- The exponent of the last digit of a magnitude. -/
def quantum (x : ℚ) : ℤ := max (Int.log 2 x + 1 - precision) least

def roundMagnitude (x : ℚ) : ℚ := halfEven (x / 2 ^ quantum precision least x) * 2 ^ quantum precision least x

/-- The nearest number of the format, if its exponent had no upper bound. -/
def roundTo (x : ℚ) : ℚ := if x < 0 then -roundMagnitude precision least (-x) else roundMagnitude precision least x

variable {precision least}

theorem quantum_positive (e : ℤ) : (0 : ℚ) < 2 ^ e := zpow_pos (by norm_num) e

theorem roundMagnitude_nonneg {x : ℚ} (nonneg : 0 ≤ x) : 0 ≤ roundMagnitude precision least x := by
  have scaled : (0 : ℚ) ≤ x / 2 ^ quantum precision least x := div_nonneg nonneg (quantum_positive _).le
  have rounded : (0 : ℤ) ≤ halfEven (x / 2 ^ quantum precision least x) := by
    have start := halfEven_mono scaled
    rwa [show (0 : ℚ) = ((0 : ℤ) : ℚ) by norm_num, halfEven_intCast] at start
  exact mul_nonneg (by exact_mod_cast rounded) (quantum_positive _).le

/-- A multiple of the quantum is never crossed. -/
theorem roundMagnitude_le {x : ℚ} {n : ℤ} (below : x ≤ n * 2 ^ quantum precision least x) :
    roundMagnitude precision least x ≤ n * 2 ^ quantum precision least x := by
  have scaled : x / 2 ^ quantum precision least x ≤ n := (div_le_iff₀ (quantum_positive _)).mpr below
  have rounded := halfEven_mono scaled
  rw [halfEven_intCast] at rounded
  exact mul_le_mul_of_nonneg_right (by exact_mod_cast rounded) (quantum_positive _).le

theorem le_roundMagnitude {x : ℚ} {n : ℤ} (above : n * 2 ^ quantum precision least x ≤ x) :
    n * 2 ^ quantum precision least x ≤ roundMagnitude precision least x := by
  have scaled : (n : ℚ) ≤ x / 2 ^ quantum precision least x := (le_div_iff₀ (quantum_positive _)).mpr above
  have rounded := halfEven_mono scaled
  rw [halfEven_intCast] at rounded
  exact mul_le_mul_of_nonneg_right (by exact_mod_cast rounded) (quantum_positive _).le

theorem roundMagnitude_mono (digits : 0 < precision) {x y : ℚ} (nonneg : 0 ≤ x) (le : x ≤ y) :
    roundMagnitude precision least x ≤ roundMagnitude precision least y := by
  rcases nonneg.lt_or_eq with positive | rfl
  · have logs : Int.log 2 x ≤ Int.log 2 y := Int.log_mono_right positive le
    have quanta : quantum precision least x ≤ quantum precision least y := by
      unfold quantum
      omega
    rcases quanta.lt_or_eq with less | same
    · -- The power of two between the two magnitudes is a multiple of both quanta.
      have top : quantum precision least y = Int.log 2 y + 1 - precision := by
        unfold quantum at less ⊢
        omega
      have upper : x ≤ ((2 ^ precision : ℤ) : ℚ) * 2 ^ quantum precision least x := by
        have bound := (Int.lt_zpow_succ_log_self (by norm_num : 1 < 2) x).le
        have exponent : Int.log 2 x + 1 ≤ precision + quantum precision least x := by
          unfold quantum
          omega
        calc x ≤ (2 : ℚ) ^ (Int.log 2 x + 1) := by exact_mod_cast bound
          _ ≤ 2 ^ ((precision : ℤ) + quantum precision least x) := zpow_le_zpow_right₀ (by norm_num) exponent
          _ = ((2 ^ precision : ℤ) : ℚ) * 2 ^ quantum precision least x := by
            rw [zpow_add₀ (by norm_num : (2 : ℚ) ≠ 0)]
            norm_num
      have lower : ((2 ^ (precision - 1) : ℤ) : ℚ) * 2 ^ quantum precision least y ≤ y := by
        have bound := Int.zpow_log_le_self (by norm_num : 1 < 2) (positive.trans_le le)
        calc ((2 ^ (precision - 1) : ℤ) : ℚ) * 2 ^ quantum precision least y
            = (2 : ℚ) ^ (((precision - 1 : ℕ) : ℤ) + quantum precision least y) := by
              rw [zpow_add₀ (by norm_num : (2 : ℚ) ≠ 0)]
              norm_num
          _ = 2 ^ Int.log 2 y := by
              congr 1
              omega
          _ ≤ y := by exact_mod_cast bound
      have meet : ((2 ^ precision : ℤ) : ℚ) * 2 ^ quantum precision least x ≤
          ((2 ^ (precision - 1) : ℤ) : ℚ) * 2 ^ quantum precision least y := by
        have exponent : (precision : ℤ) + quantum precision least x ≤ ((precision - 1 : ℕ) : ℤ) + quantum precision least y := by
          omega
        have powers := zpow_le_zpow_right₀ (by norm_num : (1 : ℚ) ≤ 2) exponent
        rw [zpow_add₀ (by norm_num : (2 : ℚ) ≠ 0), zpow_add₀ (by norm_num : (2 : ℚ) ≠ 0)] at powers
        push_cast
        exact_mod_cast powers
      exact (roundMagnitude_le upper).trans (meet.trans (le_roundMagnitude lower))
    · unfold roundMagnitude
      rw [← same]
      have scaled := halfEven_mono (div_le_div_of_nonneg_right le (quantum_positive (quantum precision least x)).le)
      exact mul_le_mul_of_nonneg_right (by exact_mod_cast scaled) (quantum_positive _).le
  · have zero : roundMagnitude precision least 0 = 0 := by
      unfold roundMagnitude
      rw [zero_div, show (0 : ℚ) = ((0 : ℤ) : ℚ) by norm_num, halfEven_intCast]
      norm_num
    rw [zero]
    exact roundMagnitude_nonneg le

/-- Rounding keeps the order. -/
theorem roundTo_mono (digits : 0 < precision) {x y : ℚ} (le : x ≤ y) :
    roundTo precision least x ≤ roundTo precision least y := by
  unfold roundTo
  split_ifs with left right right
  · exact neg_le_neg (roundMagnitude_mono digits (by linarith) (by linarith))
  · have lower := @roundMagnitude_nonneg precision least (-x) (by linarith)
    have upper := @roundMagnitude_nonneg precision least y (by linarith)
    linarith
  · exact absurd right (by linarith)
  · exact roundMagnitude_mono digits (by linarith) le

theorem quantum_eq {x : ℚ} {e : ℤ} (low : (2 : ℚ) ^ e ≤ x) (high : x < 2 ^ (e + 1)) (normal : least ≤ e + 1 - precision) :
    quantum precision least x = e + 1 - precision := by
  have positive : 0 < x := (quantum_positive e).trans_le low
  have lower : e ≤ Int.log 2 x := (Int.zpow_le_iff_le_log (by norm_num) positive).mp (by exact_mod_cast low)
  have upper : Int.log 2 x < e + 1 := (Int.lt_zpow_iff_log_lt (by norm_num) positive).mp (by exact_mod_cast high)
  unfold quantum
  omega

/-- Rounding within one power of two, where the quantum is known. -/
theorem roundTo_eq {x : ℚ} {e : ℤ} (low : (2 : ℚ) ^ e ≤ x) (high : x < 2 ^ (e + 1)) (normal : least ≤ e + 1 - precision) :
    roundTo precision least x = halfEven (x / 2 ^ (e + 1 - precision)) * 2 ^ (e + 1 - precision) := by
  have positive : 0 < x := (quantum_positive e).trans_le low
  rw [roundTo, if_neg (by linarith), roundMagnitude, quantum_eq low high normal]

end Format

end Foundation
