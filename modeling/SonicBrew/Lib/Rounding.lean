import Mathlib.Algebra.Order.Round
import Mathlib.Tactic.Linarith
import Mathlib.Tactic.NormNum
import Mathlib.Tactic.Ring

/-!
# Rounding half away from zero

The nearest integer, and of two that are equally near the one that is further from zero. It is the
rounding of Mathlib on the nonnegative numbers and is carried over to the others by symmetry, so
it is as near as that one (`SonicBrew.abs_roundHalfAway_sub_le`), and a number between two opposite
integers stays there (`SonicBrew.abs_roundHalfAway_le`). It keeps the order of the numbers
(`SonicBrew.roundHalfAway_mono`).

The last result is about numbers that are scaled up and rounded, and scaled down again by one more
(`SonicBrew.abs_roundHalfAway_mul_div_sub_le`): what is lost is at most the half of the rounding
and the one of the scale.
-/

namespace SonicBrew

variable {K : Type} [Field K] [LinearOrder K] [IsStrictOrderedRing K] [FloorRing K]

/-- The nearest integer, ties away from zero. -/
def roundHalfAway (x : K) : ℤ := if 0 ≤ x then round x else -round (-x)

theorem roundHalfAway_intCast (n : ℤ) : roundHalfAway (n : K) = n := by
  rw [roundHalfAway]
  split
  · exact round_intCast n
  · rw [← Int.cast_neg, round_intCast, neg_neg]

theorem roundHalfAway_mono {x y : K} (h : x ≤ y) : roundHalfAway x ≤ roundHalfAway y := by
  have hround : ∀ {x y : K}, x ≤ y → round x ≤ round y := fun h => by
    rw [round_eq, round_eq]
    exact Int.floor_mono (by linarith)
  rw [roundHalfAway, roundHalfAway]
  split
  · rw [if_pos (by linarith)]
    exact hround h
  · split
    -- zero is between the two
    · have hzero : round (0 : K) = 0 := round_zero
      have hx : 0 ≤ round (-x) := hzero ▸ hround (by linarith)
      have hy : 0 ≤ round y := hzero ▸ hround (by linarith)
      omega
    · exact neg_le_neg (hround (by linarith))

theorem abs_roundHalfAway_sub_le (x : K) : |(roundHalfAway x : K) - x| ≤ 1 / 2 := by
  rw [roundHalfAway]
  split
  · rw [abs_sub_comm]
    exact abs_sub_round x
  · have hround := abs_sub_round (-x)
    rw [Int.cast_neg, show -(round (-x) : K) - x = -x - round (-x) by ring]
    exact hround

theorem abs_roundHalfAway_le {x : K} {n : ℤ} (h : |x| ≤ n) : |roundHalfAway x| ≤ n := by
  obtain ⟨hlow, hhigh⟩ := abs_le.mp (abs_roundHalfAway_sub_le x)
  obtain ⟨hle, hge⟩ := abs_le.mp h
  -- an integer that is less than one above another is at most the other
  have habove : (roundHalfAway x : K) < (n + 1 : ℤ) := by
    push_cast
    linarith
  have hbelow : ((-n - 1 : ℤ) : K) < roundHalfAway x := by
    push_cast
    linarith
  rw [abs_le]
  exact ⟨by have := Int.cast_lt.mp hbelow; omega, Int.lt_add_one_iff.mp (Int.cast_lt.mp habove)⟩

/-- **Up by `N - 1`, rounded, and down by `N`.** -/
theorem abs_roundHalfAway_mul_div_sub_le {x N : K} (hx : |x| ≤ 1) (hN : 0 < N) :
    |(roundHalfAway (x * (N - 1)) : K) / N - x| ≤ 3 / 2 / N := by
  have hround := abs_roundHalfAway_sub_le (x * (N - 1))
  generalize (roundHalfAway (x * (N - 1)) : K) = r at hround
  have hsplit : r / N - x = (r - x * (N - 1) - x) / N := by
    rw [eq_div_iff hN.ne', sub_mul, div_mul_cancel₀ _ hN.ne']
    ring
  rw [hsplit, abs_div, abs_of_pos hN]
  refine div_le_div_of_nonneg_right ?_ hN.le
  calc |r - x * (N - 1) - x| ≤ |r - x * (N - 1)| + |x| := abs_sub _ _
    _ ≤ 1 / 2 + 1 := add_le_add hround hx
    _ = 3 / 2 := by norm_num

end SonicBrew
