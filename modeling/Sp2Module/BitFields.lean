import Mathlib.Algebra.Order.Ring.Nat

/-!
# Fields of a word

A word that is put together from shifted parts is the sum of the parts in their places, as long as
each part ends where the next one begins. A part is read back by shifting and masking.
-/

namespace Sp2Module.BitFields

variable {w k m : ℕ} {x y mask : BitVec w}

/-- A part above another one. -/
theorem toNat_or_shiftLeft (hx : x.toNat < 2 ^ k) (hy : 2 ^ k * y.toNat < 2 ^ w) :
    (x ||| y <<< k).toNat = x.toNat + 2 ^ k * y.toNat := by
  have hshift : (y <<< k).toNat = 2 ^ k * y.toNat := by
    rw [BitVec.toNat_shiftLeft, Nat.shiftLeft_eq, Nat.mul_comm, Nat.mod_eq_of_lt hy]
  rw [BitVec.toNat_or, hshift, Nat.or_comm, ← Nat.two_pow_add_eq_or_of_lt hx, Nat.add_comm]

theorem toNat_setWidth_of_lt {v : ℕ} {x : BitVec v} (h : x.toNat < 2 ^ w) :
    (x.setWidth w).toNat = x.toNat := by
  rw [BitVec.toNat_setWidth, Nat.mod_eq_of_lt h]

theorem toNat_ofNat_of_lt {n : ℕ} (h : n < 2 ^ w) : (BitVec.ofNat w n).toNat = n := by
  rw [BitVec.toNat_ofNat, Nat.mod_eq_of_lt h]

theorem or_swap_right (x y z : BitVec w) : x ||| y ||| z = x ||| z ||| y := by
  rw [BitVec.or_assoc, BitVec.or_comm y z, ← BitVec.or_assoc]

theorem toNat_and_mask (hmask : mask.toNat = 2 ^ m - 1) :
    (x &&& mask).toNat = x.toNat % 2 ^ m := by
  rw [BitVec.toNat_and, hmask, Nat.and_two_pow_sub_one_eq_mod]

theorem toNat_ushiftRight (x : BitVec w) (k : ℕ) : (x >>> k).toNat = x.toNat / 2 ^ k := by
  rw [BitVec.toNat_ushiftRight, Nat.shiftRight_eq_div_pow]

theorem toNat_ushiftRight_and (hmask : mask.toNat = 2 ^ m - 1) :
    (x >>> k &&& mask).toNat = x.toNat / 2 ^ k % 2 ^ m := by
  rw [toNat_and_mask hmask, toNat_ushiftRight]

end Sp2Module.BitFields
