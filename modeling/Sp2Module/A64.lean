import Mathlib.Algebra.Order.Ring.Nat
import Mathlib.Algebra.Group.Int.Defs
import Mathlib.Tactic.Ring

/-!
# A64 branch words

The fields of the immediate branches, and the mask arithmetic that encoders of such words use.
-/

namespace Sp2Module

/-- The two immediate branches. -/
inductive Branch where
  | b
  | bl
deriving DecidableEq, Repr

/-- The six opcode bits of an immediate branch. -/
def Branch.opcode : Branch → ℕ
  | .b => 0b000101
  | .bl => 0b100101

namespace A64

/-- Clearing the low `k` bits of a `w`-bit number. -/
theorem and_high_mask {x k w : ℕ} (hx : x < 2 ^ w) (hk : k ≤ w) :
    x &&& (2 ^ w - 2 ^ k) = x / 2 ^ k * 2 ^ k := by
  have hmask : 2 ^ w - 2 ^ k = (2 ^ (w - k) - 1) * 2 ^ k := by
    rw [Nat.sub_mul, one_mul, ← pow_add, Nat.sub_add_cancel hk]
  apply Nat.eq_of_testBit_eq
  intro i
  rw [hmask, Nat.testBit_and, Nat.testBit_mul_two_pow, Nat.testBit_mul_two_pow,
    Nat.testBit_two_pow_sub_one, Nat.testBit_div_two_pow]
  by_cases hi : k ≤ i
  · rw [show i - k + k = i by omega]
    by_cases hw : i < w
    · simp [hi, show i - k < w - k by omega]
    · have hbit : x.testBit i = false :=
        Nat.testBit_lt_two_pow (hx.trans_le (Nat.pow_le_pow_right (by decide) (by omega)))
      simp [hbit]
  · simp [hi]

def opcode (word : UInt32) : ℕ := word.toNat / 2 ^ 26

def imm26 (word : UInt32) : ℕ := word.toNat % 2 ^ 26

/-- The address an immediate branch at `pc` goes to: `pc + 4 * signext26(imm26)`. -/
def branchTarget (pc : ℤ) (word : UInt32) : ℤ := pc + 4 * (imm26 word : ℤ).bmod (2 ^ 26)

end A64
end Sp2Module
