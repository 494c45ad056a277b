import Mathlib.Algebra.Order.Group.Unbundled.Int
import Mathlib.Tactic.Ring
import Mathlib.Tactic.Linarith

/-!
# Rounding up to a multiple

`alignUp n a` is the value of `(a + (n - 1)) & ~(n - 1)` for a power of two `n`. Rounding a sum
once and rounding its terms one by one agree only up to the padding of the terms, `alignPad`.
-/

namespace Sp2Module

def alignUp (n a : ℤ) : ℤ := (a + (n - 1)) / n * n

/-- How far rounding moves `a`. -/
def alignPad (n a : ℤ) : ℤ := alignUp n a - a

variable {n a b : ℤ}

theorem le_alignUp (hn : 0 < n) : a ≤ alignUp n a := by
  have h := Int.lt_ediv_add_one_mul_self (a + (n - 1)) hn
  unfold alignUp
  linarith

theorem alignUp_lt (hn : 0 < n) : alignUp n a < a + n := by
  have h := Int.ediv_mul_le (a + (n - 1)) hn.ne'
  unfold alignUp
  linarith

theorem dvd_alignUp (n a : ℤ) : n ∣ alignUp n a := dvd_mul_left _ _

theorem alignUp_mono (hn : 0 < n) (h : a ≤ b) : alignUp n a ≤ alignUp n b := by
  apply mul_le_mul_of_nonneg_right _ hn.le
  exact Int.ediv_le_ediv hn (by omega)

theorem alignUp_nonneg (hn : 0 < n) (h : 0 ≤ a) : 0 ≤ alignUp n a := h.trans (le_alignUp hn)

theorem alignPad_nonneg (hn : 0 < n) : 0 ≤ alignPad n a := sub_nonneg.mpr (le_alignUp hn)

end Sp2Module
