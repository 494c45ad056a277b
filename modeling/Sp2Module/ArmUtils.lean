import Sp2Module.A64
import Sp2Module.Nso

/-!
# ArmUtils

The encoders of the immediate branches. Both take the displacement as an unsigned label and accept
the non-negative multiples of four below `2 ^ 27`.
-/

namespace Sp2Module.ArmUtils

def bId : UInt32 := 0x14000000
def blId : UInt32 := 0x94000000

/-- The common body of the two branch encoders. -/
def encodeBranch (id label : UInt32) : Except Exception Bytes :=
  if 0x7FFFFFC < label then .error (.app (.armv8 "label cannot be higher than 0x7FFFFFC"))
  else if label % 4 ≠ 0 then .error (.app (.armv8 "label must be a power of 4"))
  else
    let enc := id ||| ((label &&& ~~~0xF) >>> 2)
    .ok (uintBytes (enc + (label &&& 0xF) / 4))

def armv8EncodeB (label : UInt32) : Except Exception Bytes := encodeBranch bId label

def armv8EncodeBl (label : UInt32) : Except Exception Bytes := encodeBranch blId label

def branchId : Branch → UInt32
  | .b => bId
  | .bl => blId

def Encodable (label : UInt32) : Prop := label.toNat ≤ 0x7FFFFFC ∧ label.toNat % 4 = 0

instance (label : UInt32) : Decidable (Encodable label) := inferInstanceAs (Decidable (_ ∧ _))

variable {label : UInt32} {k : Branch}

theorem toNat_branchId (k : Branch) : (branchId k).toNat = k.opcode * 2 ^ 26 := by
  cases k <;> rfl

/-- The word is the opcode above the label divided by four. -/
theorem toNat_branchWord (h : Encodable label) :
    (branchId k ||| ((label &&& ~~~0xF) >>> 2)).toNat + ((label &&& 0xF) / 4).toNat =
      k.opcode * 2 ^ 26 + label.toNat / 4 := by
  have hlt : label.toNat < 2 ^ 32 := label.toNat_lt
  have hhigh : ((label &&& ~~~0xF) >>> 2).toNat = label.toNat / 16 * 4 := by
    have hmask := A64.and_high_mask (k := 4) hlt (by decide)
    have hshift : ((label &&& ~~~0xF) >>> 2).toNat = (label.toNat &&& (2 ^ 32 - 2 ^ 4)) / 4 := by
      rw [UInt32.toNat_shiftRight, UInt32.toNat_and, Nat.shiftRight_eq_div_pow]
      rfl
    rw [hshift, hmask]
    omega
  have hlow : ((label &&& 0xF) / 4).toNat = label.toNat % 16 / 4 := by
    rw [UInt32.toNat_div, UInt32.toNat_and]
    exact congrArg (· / 4) (Nat.and_two_pow_sub_one_eq_mod label.toNat 4)
  have hor : k.opcode * 2 ^ 26 ||| label.toNat / 16 * 4 =
      k.opcode * 2 ^ 26 + label.toNat / 16 * 4 := by
    have hle := h.1
    rw [Nat.mul_comm, ← Nat.two_pow_add_eq_or_of_lt (by omega)]
  have hmod := h.2
  rw [UInt32.toNat_or, toNat_branchId, hhigh, hlow, hor]
  omega

theorem encodeBranch_of_encodable (h : Encodable label) :
    ∃ word : UInt32, encodeBranch (branchId k) label = .ok (uintBytes word) ∧
      word.toNat = k.opcode * 2 ^ 26 + label.toNat / 4 := by
  have hle : ¬ (0x7FFFFFC : UInt32) < label := by
    rw [UInt32.lt_iff_toNat_lt]
    exact Nat.not_lt.mpr h.1
  have hmod : label % 4 = 0 := by
    rw [← UInt32.toNat_inj, UInt32.toNat_mod]
    exact h.2
  have hword := toNat_branchWord (k := k) h
  refine ⟨_, by rw [encodeBranch, if_neg hle, if_neg (by simp [hmod])], ?_⟩
  have hbound := h.1
  have hop : k.opcode < 2 ^ 6 := by cases k <;> decide
  rw [UInt32.toNat_add, hword, Nat.mod_eq_of_lt]
  omega

theorem encodeBranch_of_not_encodable (h : ¬ Encodable label) :
    ∃ x, encodeBranch (branchId k) label = .error x := by
  unfold encodeBranch
  split_ifs with hle hmod
  · exact ⟨_, rfl⟩
  · exact ⟨_, rfl⟩
  · refine absurd ⟨?_, ?_⟩ h
    · rw [UInt32.lt_iff_toNat_lt] at hle
      exact Nat.not_lt.mp hle
    · have hzero : label % 4 = 0 := not_not.mp hmod
      rw [← UInt32.toNat_inj, UInt32.toNat_mod] at hzero
      exact hzero

end Sp2Module.ArmUtils
