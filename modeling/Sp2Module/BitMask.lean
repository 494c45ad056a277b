import Mathlib.Algebra.Order.Ring.Nat
import Mathlib.Tactic.Ring

/-!
# Bit mask immediates

A logical immediate is a run of ones, rotated inside an element of `2 ^ len` bits and repeated over
the whole width. Six bits say how long the element and the run are: the zeros among them begin where
the element size is told, and the bits below give the run.
-/

namespace Sp2Module.A64

/-- `s + 1` ones, rotated right by `r` in an element of `2 ^ len` bits, over a width of `m`. -/
def bitMask (m len s r : ℕ) : BitVec m :=
  (((BitVec.ofNat (2 ^ len) (2 ^ (s + 1) - 1)).rotateRight r).replicate (m / 2 ^ len)).setWidth m

/-- The size of the element, as a power of two: the highest zero among the six bits of `imms`. -/
def elementLength (imms : ℕ) : ℕ := Nat.log2 (63 - imms)

/-- No element of at least two bits, or a run that fills the element. -/
def Reserved (imms : ℕ) : Prop :=
  63 - imms < 2 ∨ imms % 2 ^ elementLength imms = 2 ^ elementLength imms - 1

instance (imms : ℕ) : Decidable (Reserved imms) := inferInstanceAs (Decidable (_ ∨ _))

/-- `DecodeBitMasks` without the bit for elements of 64 bits. -/
def decodeBitMasks (m imms immr : ℕ) : Option (BitVec m) :=
  if Reserved imms then none
  else some (bitMask m (elementLength imms) (imms % 2 ^ elementLength imms)
    (immr % 2 ^ elementLength imms))

variable {m len s r i : ℕ}

/-- Which bits of a mask are set. -/
theorem getLsbD_bitMask (hm : 2 ^ len ∣ m) (hi : i < m) (r : ℕ) (hs : s < 2 ^ len) :
    (bitMask m len s r).getLsbD i = decide ((i + r) % 2 ^ len ≤ s) := by
  have hpos : 0 < 2 ^ len := Nat.two_pow_pos len
  have hmul : 2 ^ len * (m / 2 ^ len) = m := Nat.mul_div_cancel' hm
  rw [bitMask, BitVec.getLsbD_setWidth, BitVec.getLsbD_replicate, BitVec.getLsbD_rotateRight]
  simp only [BitVec.getLsbD_ofNat, Nat.testBit_two_pow_sub_one, hmul, hi, decide_true,
    Bool.true_and, Nat.add_mod i r]
  have hp : i % 2 ^ len < 2 ^ len := Nat.mod_lt _ hpos
  have hq : r % 2 ^ len < 2 ^ len := Nat.mod_lt _ hpos
  generalize i % 2 ^ len = p at *
  generalize r % 2 ^ len = q at *
  generalize 2 ^ len = e at *
  -- the rotated bit is on this side of the end of the element or has come round
  by_cases hround : p < e - q
  · rw [Nat.mod_eq_of_lt (by omega)]
    simp only [hround, decide_true, cond_true, ← Bool.decide_and, decide_eq_decide]
    omega
  · rw [Nat.mod_eq_sub_mod (by omega), Nat.mod_eq_of_lt (by omega)]
    simp only [hround, decide_false, cond_false, ← Bool.decide_and, decide_eq_decide]
    omega

/-- A narrower mask is the low part of a wider one. -/
theorem setWidth_bitMask {n : ℕ} (hm : 2 ^ len ∣ m) (hn : 2 ^ len ∣ n) (h : n ≤ m)
    (hs : s < 2 ^ len) : (bitMask m len s r).setWidth n = bitMask n len s r := by
  apply BitVec.eq_of_getLsbD_eq
  intro i hi
  rw [BitVec.getLsbD_setWidth, getLsbD_bitMask hm (hi.trans_le h) r hs, getLsbD_bitMask hn hi r hs,
    decide_eq_true hi, Bool.true_and]

end Sp2Module.A64
