import Sp2Module.ArmEncodings

/-!
# The words the encoders make

Each encoder gives its operands their places in a word. Where the operands fit, the word is a sum of
disjoint fields; what an encoder refuses, it refuses with an exception of its own, but for the least
label of an `adrp`.
-/

namespace Sp2Module.ArmUtils

open A64

variable {word : UInt32} {wd xd xn : UInt8} {id : UInt32}

/-- The registers that the encoders refuse. -/
theorem last_lt_iff (r : UInt8) : (0x1F : UInt8) < r ↔ ¬ r.toNat < 32 := by
  rw [UInt8.lt_iff_toNat_lt, not_lt]
  exact Nat.succ_le_iff.symm

/-! ### Moves -/

theorem toNat_moveWord {hw : UInt32} {imm : UInt16} (hid : id.toNat < 2 ^ 9) (hhw : hw.toNat < 4)
    (hwd : wd.toNat < 32) :
    (id <<< 23 ||| hw <<< 21 ||| imm.toUInt32 <<< 5 ||| wd.toUInt32).toNat =
      id.toNat * 2 ^ 23 + hw.toNat * 2 ^ 21 + imm.toNat * 2 ^ 5 + wd.toNat := by
  have himm := imm.toNat_lt
  have hid' : (id <<< 23).toNat = id.toNat * 2 ^ 23 :=
    A64.toNat_shiftLeft (by decide) (by change _ * 2 ^ 23 < _; omega)
  have hhw' : (hw <<< 21).toNat = hw.toNat * 2 ^ 21 :=
    A64.toNat_shiftLeft (by decide) (by change _ * 2 ^ 21 < _; omega)
  have himm' : (imm.toUInt32 <<< 5).toNat = imm.toNat * 2 ^ 5 :=
    A64.toNat_shiftLeft (by decide) (by rw [UInt16.toNat_toUInt32]; change _ * 2 ^ 5 < _; omega)
  have hwd' : wd.toUInt32.toNat = wd.toNat := UInt8.toNat_toUInt32 wd
  have h₁ : (id <<< 23 ||| hw <<< 21).toNat = id.toNat * 2 ^ 23 + hw.toNat * 2 ^ 21 := by
    rw [A64.toNat_or 23 (by omega) (by omega), hid', hhw']
  have h₂ : (id <<< 23 ||| hw <<< 21 ||| imm.toUInt32 <<< 5).toNat =
      id.toNat * 2 ^ 23 + hw.toNat * 2 ^ 21 + imm.toNat * 2 ^ 5 := by
    rw [A64.toNat_or 21 (by omega) (by omega), h₁, himm']
  rw [A64.toNat_or 5 (by omega) (by omega), h₂, hwd']

/-- The shifts that both move encoders take. -/
def MoveShift (lsl : Int32) : Prop := lsl = 0 ∨ lsl = 16 ∨ lsl = 32 ∨ lsl = 48

instance (lsl : Int32) : Decidable (MoveShift lsl) := inferInstanceAs (Decidable (_ ∨ _))

theorem encodeMove_of_valid (imm : UInt16) {lsl : Int32} (hid : id.toNat < 2 ^ 9)
    (hlsl : MoveShift lsl) (hwd : wd.toNat < 32) :
    ∃ word, encodeMove id wd imm lsl = .ok (uintBytes word) ∧
      word.toNat = id.toNat * 2 ^ 23 + (lsl / 16).toUInt32.toNat * 2 ^ 21 + imm.toNat * 2 ^ 5 +
        wd.toNat := by
  have hhw : (lsl / 16).toUInt32.toNat < 4 := by
    obtain rfl | rfl | rfl | rfl := hlsl <;> decide
  have hwd' : ¬ (0x1F : UInt8) < wd := fun h => (last_lt_iff wd).mp h hwd
  have hlsl' : ¬ (lsl ≠ 0 ∧ lsl ≠ 16 ∧ lsl ≠ 32 ∧ lsl ≠ 48) := by
    unfold MoveShift at hlsl
    tauto
  refine ⟨_, ?_, toNat_moveWord hid hhw hwd⟩
  rw [encodeMove, if_neg hlsl', if_neg hwd']

theorem fields_of_moveWord {code hw imm rd : ℕ} (hcode : code < 2 ^ 9) (hhw : hw < 4)
    (himm : imm < 2 ^ 16) (hrd : rd < 32)
    (h : word.toNat = code * 2 ^ 23 + hw * 2 ^ 21 + imm * 2 ^ 5 + rd) :
    field word 23 9 = code ∧ field word 21 2 = hw ∧ field word 5 16 = imm ∧
      field word 0 5 = rd := by
  unfold field
  rw [h]
  refine ⟨?_, ?_, ?_, ?_⟩ <;> omega

theorem encodeMove_of_not_valid {imm : UInt16} {lsl : Int32}
    (h : ¬ (MoveShift lsl ∧ wd.toNat < 32)) :
    ∃ message, encodeMove id wd imm lsl = .error (armv8Exception message) := by
  unfold encodeMove
  split_ifs with hlsl hwd
  · exact ⟨_, rfl⟩
  · exact ⟨_, rfl⟩
  · rw [last_lt_iff, not_not] at hwd
    refine absurd ⟨?_, hwd⟩ h
    unfold MoveShift
    tauto

/-! ### Additions and calls -/

theorem toNat_addImmWord {sh : UInt32} {imm : UInt16} (hsh : sh.toNat < 2)
    (himm : imm.toNat < 2 ^ 12) (hxn : xn.toNat < 32) (hxd : xd.toNat < 32) :
    (addImmId <<< 23 ||| sh <<< 22 ||| imm.toUInt32 <<< 10 ||| xn.toUInt32 <<< 5 |||
      xd.toUInt32).toNat =
        0b100100010 * 2 ^ 23 + sh.toNat * 2 ^ 22 + imm.toNat * 2 ^ 10 + xn.toNat * 2 ^ 5 +
          xd.toNat := by
  have hid' : (addImmId <<< 23).toNat = 0b100100010 * 2 ^ 23 := by decide
  have hsh' : (sh <<< 22).toNat = sh.toNat * 2 ^ 22 :=
    A64.toNat_shiftLeft (by decide) (by change _ * 2 ^ 22 < _; omega)
  have himm' : (imm.toUInt32 <<< 10).toNat = imm.toNat * 2 ^ 10 :=
    A64.toNat_shiftLeft (by decide) (by rw [UInt16.toNat_toUInt32]; change _ * 2 ^ 10 < _; omega)
  have hxn' : (xn.toUInt32 <<< 5).toNat = xn.toNat * 2 ^ 5 :=
    A64.toNat_shiftLeft (by decide) (by rw [UInt8.toNat_toUInt32]; change _ * 2 ^ 5 < _; omega)
  have hxd' : xd.toUInt32.toNat = xd.toNat := UInt8.toNat_toUInt32 xd
  have h₁ : (addImmId <<< 23 ||| sh <<< 22).toNat = 0b100100010 * 2 ^ 23 + sh.toNat * 2 ^ 22 := by
    rw [A64.toNat_or 23 (by omega) (by omega), hid', hsh']
  have h₂ : (addImmId <<< 23 ||| sh <<< 22 ||| imm.toUInt32 <<< 10).toNat =
      0b100100010 * 2 ^ 23 + sh.toNat * 2 ^ 22 + imm.toNat * 2 ^ 10 := by
    rw [A64.toNat_or 22 (by omega) (by omega), h₁, himm']
  have h₃ : (addImmId <<< 23 ||| sh <<< 22 ||| imm.toUInt32 <<< 10 ||| xn.toUInt32 <<< 5).toNat =
      0b100100010 * 2 ^ 23 + sh.toNat * 2 ^ 22 + imm.toNat * 2 ^ 10 + xn.toNat * 2 ^ 5 := by
    rw [A64.toNat_or 10 (by omega) (by omega), h₂, hxn']
  rw [A64.toNat_or 5 (by omega) (by omega), h₃, hxd']

theorem fields_of_addImmWord {sh imm rn rd : ℕ} (hsh : sh < 2) (himm : imm < 2 ^ 12) (hrn : rn < 32)
    (hrd : rd < 32)
    (h : word.toNat = 0b100100010 * 2 ^ 23 + sh * 2 ^ 22 + imm * 2 ^ 10 + rn * 2 ^ 5 + rd) :
    field word 23 9 = 0b100100010 ∧ field word 24 8 = 0b10010001 ∧ field word 22 2 = sh ∧
      field word 22 1 = sh ∧ field word 10 12 = imm ∧ field word 5 5 = rn ∧
        field word 0 5 = rd := by
  unfold field
  rw [h]
  refine ⟨?_, ?_, ?_, ?_, ?_, ?_, ?_⟩ <;> omega

/-- The operands an `add` is refused for; the immediate is not among them. -/
def AddOperands (xd xn : UInt8) (lsl : Int32) : Prop :=
  (lsl = 0 ∨ lsl = 12) ∧ xd.toNat < 32 ∧ xn.toNat < 32

instance (xd xn : UInt8) (lsl : Int32) : Decidable (AddOperands xd xn lsl) :=
  inferInstanceAs (Decidable (_ ∧ _))

theorem armv8EncodeAddImm_eq_ok {imm : UInt16} {lsl : Int32} (h : AddOperands xd xn lsl) :
    armv8EncodeAddImm xd xn imm lsl = .ok (uintBytes
      (addImmId <<< 23 ||| (lsl / 12).toUInt32 <<< 22 ||| imm.toUInt32 <<< 10 |||
        xn.toUInt32 <<< 5 ||| xd.toUInt32)) := by
  have hlsl : ¬ (lsl ≠ 0 ∧ lsl ≠ 12) := by
    have := h.1
    tauto
  have hregs : ¬ ((0x1F : UInt8) < xd ∨ (0x1F : UInt8) < xn) := by
    rw [last_lt_iff, last_lt_iff, ← not_and_or, not_not]
    exact h.2
  rw [armv8EncodeAddImm, if_neg hlsl, if_neg hregs]

theorem armv8EncodeAddImm_of_valid {imm : UInt16} {lsl : Int32} (h : AddOperands xd xn lsl)
    (himm : imm.toNat < 2 ^ 12) :
    ∃ word, armv8EncodeAddImm xd xn imm lsl = .ok (uintBytes word) ∧
      word.toNat = 0b100100010 * 2 ^ 23 + (lsl / 12).toUInt32.toNat * 2 ^ 22 + imm.toNat * 2 ^ 10 +
        xn.toNat * 2 ^ 5 + xd.toNat := by
  have hsh : (lsl / 12).toUInt32.toNat < 2 := by
    obtain rfl | rfl := h.1 <;> decide
  exact ⟨_, armv8EncodeAddImm_eq_ok h, toNat_addImmWord hsh himm h.2.2 h.2.1⟩

theorem armv8EncodeAddImm_of_not_valid {imm : UInt16} {lsl : Int32} (h : ¬ AddOperands xd xn lsl) :
    ∃ message, armv8EncodeAddImm xd xn imm lsl = .error (armv8Exception message) := by
  unfold armv8EncodeAddImm
  split_ifs with hlsl hregs
  · exact ⟨_, rfl⟩
  · exact ⟨_, rfl⟩
  · rw [last_lt_iff, last_lt_iff, ← not_and_or, not_not] at hregs
    exact absurd ⟨by tauto, hregs⟩ h

theorem toNat_svcWord (svc : UInt16) :
    (svcId ||| svc.toUInt32 <<< 5).toNat = 0xD4000001 + svc.toNat * 2 ^ 5 := by
  have hlt := svc.toNat_lt
  have himm : (svc.toUInt32 <<< 5).toNat = svc.toNat * 2 ^ 5 :=
    A64.toNat_shiftLeft (by decide) (by rw [UInt16.toNat_toUInt32]; change _ * 2 ^ 5 < _; omega)
  -- the lowest bit of the code is below the immediate
  have hsplit : svcId = 0xD4000000 ||| 1 := by decide
  have hhigh : ((0xD4000000 : UInt32) ||| svc.toUInt32 <<< 5).toNat =
      0xD4000000 + svc.toNat * 2 ^ 5 := by
    rw [A64.toNat_or 21 (by decide) (by omega), himm]
    rfl
  rw [hsplit, UInt32.or_assoc, UInt32.or_comm 1, ← UInt32.or_assoc,
    A64.toNat_or 1 (by omega) (by decide), hhigh]
  change _ + 1 = _
  omega

/-! ### Addresses of pages -/

/-- The pages from `pc` to a label. -/
def pageDelta (label pc : Int64) : ℤ := label.toInt / 4096 - pc.toInt / 4096

theorem toNat_toUInt64 (x : Int64) : (x.toUInt64.toNat : ℤ) = x.toInt % 2 ^ 64 := by
  have hlt := x.toUInt64.toNat_lt
  have hbmod : x.toInt = (x.toUInt64.toNat : ℤ).bmod (2 ^ 64) :=
    BitVec.toInt_eq_toNat_bmod x.toBitVec
  calc (x.toUInt64.toNat : ℤ)
      = x.toUInt64.toNat % 2 ^ 64 := (Int.emod_eq_of_lt (by omega) (by omega)).symm
    _ = (x.toUInt64.toNat : ℤ).bmod (2 ^ 64) % (2 ^ 64 : ℕ) := Int.bmod_emod.symm
    _ = x.toInt % 2 ^ 64 := by rw [← hbmod]; rfl

theorem toNat_labelPages (label pc : Int64) :
    ((((label.toUInt64 >>> 12) - (pc.toUInt64 >>> 12)).toUInt32 &&& 0xFFFFF).toNat : ℤ) =
      pageDelta label pc % 2 ^ 20 := by
  have hpage (x : Int64) : ((x.toUInt64 >>> 12).toNat : ℤ) = x.toInt % 2 ^ 64 / 4096 := by
    rw [UInt64.toNat_shiftRight, Nat.shiftRight_eq_div_pow]
    change ((x.toUInt64.toNat / 4096 : ℕ) : ℤ) = _
    rw [Int.natCast_ediv, toNat_toUInt64]
    rfl
  have hlabel := hpage label
  have hpc := hpage pc
  rw [toNat_and_low _ (by rfl : (0xFFFFF : UInt32).toNat = 2 ^ 20 - 1), field,
    UInt64.toNat_toUInt32, UInt64.toNat_sub, pageDelta]
  omega

theorem toNat_adrpWord {v neg : UInt32} (hv : v.toNat < 2 ^ 20) (hneg : neg.toNat < 2)
    (hxd : xd.toNat < 32) :
    (adrpId <<< 23 ||| (v &&& 3) <<< 29 ||| (v >>> 2) <<< 5 ||| xd.toUInt32 ||| neg <<< 23).toNat =
      2 ^ 31 + v.toNat % 4 * 2 ^ 29 + 2 ^ 28 + neg.toNat * 2 ^ 23 + v.toNat / 4 * 2 ^ 5 +
        xd.toNat := by
  have hlow : ((v &&& 3) <<< 29).toNat = v.toNat % 4 * 2 ^ 29 := by
    have hmask : (v &&& 3).toNat = v.toNat % 4 := Nat.and_two_pow_sub_one_eq_mod v.toNat 2
    rw [A64.toNat_shiftLeft (by decide) (by rw [hmask]; change _ * 2 ^ 29 < _; omega), hmask]
    rfl
  have hhigh : ((v >>> 2) <<< 5).toNat = v.toNat / 4 * 2 ^ 5 := by
    have hshift : (v >>> 2).toNat = v.toNat / 4 := by
      rw [UInt32.toNat_shiftRight, Nat.shiftRight_eq_div_pow]
      rfl
    rw [A64.toNat_shiftLeft (by decide) (by rw [hshift]; change _ * 2 ^ 5 < _; omega), hshift]
    rfl
  have hsign : (neg <<< 23).toNat = neg.toNat * 2 ^ 23 :=
    A64.toNat_shiftLeft (by decide) (by change _ * 2 ^ 23 < _; omega)
  have hreg : xd.toUInt32.toNat = xd.toNat := UInt8.toNat_toUInt32 xd
  -- the two low bits of the label lie between the bits of the code
  have hsplit : adrpId <<< 23 = 0x80000000 ||| 0x10000000 := by decide
  have htop : (0x80000000 : UInt32).toNat = 2 ^ 31 := rfl
  have hbit : (0x10000000 : UInt32).toNat = 2 ^ 28 := rfl
  rw [hsplit]
  generalize (0x80000000 : UInt32) = top at *
  generalize (0x10000000 : UInt32) = bit at *
  generalize (v &&& 3) <<< 29 = low at *
  generalize (v >>> 2) <<< 5 = high at *
  generalize neg <<< 23 = sign at *
  generalize xd.toUInt32 = reg at *
  have horder : top ||| bit ||| low ||| high ||| reg ||| sign =
      top ||| low ||| bit ||| sign ||| high ||| reg := by ac_rfl
  have h₁ : (top ||| low).toNat = top.toNat + low.toNat := A64.toNat_or 31 (by omega) (by omega)
  have h₂ : (top ||| low ||| bit).toNat = top.toNat + low.toNat + bit.toNat := by
    rw [A64.toNat_or 29 (by omega) (by omega), h₁]
  have h₃ : (top ||| low ||| bit ||| sign).toNat =
      top.toNat + low.toNat + bit.toNat + sign.toNat := by
    rw [A64.toNat_or 28 (by omega) (by omega), h₂]
  have h₄ : (top ||| low ||| bit ||| sign ||| high).toNat =
      top.toNat + low.toNat + bit.toNat + sign.toNat + high.toNat := by
    rw [A64.toNat_or 23 (by omega) (by omega), h₃]
  rw [horder, A64.toNat_or 5 (by omega) (by omega), h₄]
  omega

/-- The labels that the encoder takes. -/
def LabelInRange (label : Int64) : Prop := |label.toInt| ≤ 0xFFFFF000

instance (label : Int64) : Decidable (LabelInRange label) := inferInstanceAs (Decidable (_ ≤ _))

theorem minValue_not_inRange : ¬ LabelInRange Int64.minValue := by
  unfold LabelInRange
  decide

theorem abs_lt_iff {label : Int64} (hmin : label ≠ Int64.minValue) :
    0xFFFFF000 < label.abs ↔ ¬ LabelInRange label := by
  have habs : label.abs.toInt = |label.toInt| := by
    have hne : label.toBitVec ≠ BitVec.intMin 64 := fun h => hmin (Int64.toBitVec_inj.mp h)
    rw [Int.abs_eq_natAbs]
    exact BitVec.toInt_abs_eq_natAbs_of_ne_intMin hne
  have hbound : (0xFFFFF000 : Int64).toInt = 0xFFFFF000 := by decide
  rw [Int64.lt_iff_toInt_lt, habs, hbound, LabelInRange, not_le]

theorem LabelInRange.accepted {label : Int64} (h : LabelInRange label) :
    label ≠ Int64.minValue ∧ ¬ 0xFFFFF000 < label.abs := by
  have hmin : label ≠ Int64.minValue := by
    rintro rfl
    exact minValue_not_inRange h
  exact ⟨hmin, fun habs => (abs_lt_iff hmin).mp habs h⟩

theorem fields_of_adrpWord {lo hi neg rd : ℕ} (hlo : lo < 4) (hhi : hi < 2 ^ 18) (hneg : neg < 2)
    (hrd : rd < 32)
    (h : word.toNat = 2 ^ 31 + lo * 2 ^ 29 + 2 ^ 28 + neg * 2 ^ 23 + hi * 2 ^ 5 + rd) :
    field word 31 1 = 1 ∧ field word 24 5 = 0b10000 ∧ field word 0 5 = rd ∧
      field word 23 1 = neg ∧ immPages word = hi * 4 + lo := by
  unfold immPages field
  rw [h]
  refine ⟨?_, ?_, ?_, ?_, ?_⟩ <;> omega

theorem armv8EncodeAdrp_of_inRange {label : Int64} (pc : Int64) (h : LabelInRange label)
    (hxd : xd.toNat < 32) :
    ∃ word, armv8EncodeAdrp xd label pc = .ok (uintBytes word) ∧
      field word 31 1 = 1 ∧ field word 24 5 = 0b10000 ∧ field word 0 5 = xd.toNat ∧
        field word 23 1 = (if label < 0 then 1 else 0) ∧
          (immPages word : ℤ) = pageDelta label pc % 2 ^ 20 := by
  obtain ⟨hmin, habs⟩ := h.accepted
  have hpages := toNat_labelPages label pc
  set v := ((label.toUInt64 >>> 12) - (pc.toUInt64 >>> 12)).toUInt32 &&& 0xFFFFF with hv
  have hlt : v.toNat < 2 ^ 20 := by omega
  set neg : UInt32 := if label < 0 then 1 else 0 with hnegdef
  have hneg : neg.toNat = if label < 0 then 1 else 0 := by
    rw [hnegdef]
    split_ifs <;> rfl
  have hneg_lt : neg.toNat < 2 := by
    rw [hneg]
    split_ifs <;> decide
  obtain ⟨hop, hcode, hreg, hsign, himm⟩ := fields_of_adrpWord (Nat.mod_lt _ (by decide))
    (by omega) hneg_lt hxd (toNat_adrpWord hlt hneg_lt hxd)
  refine ⟨_, by rw [armv8EncodeAdrp, if_neg hmin, if_neg habs], hop, hcode, hreg, ?_, ?_⟩
  · rw [hsign, hneg]
  · rw [himm, ← hpages]
    omega

/-- No register is refused. -/
theorem armv8EncodeAdrp_eq_ok {label : Int64} (pc : Int64) (h : LabelInRange label) :
    ∃ word, armv8EncodeAdrp xd label pc = .ok (uintBytes word) := by
  obtain ⟨hmin, habs⟩ := h.accepted
  exact ⟨_, by rw [armv8EncodeAdrp, if_neg hmin, if_neg habs]⟩

theorem armv8EncodeAdrp_minValue (pc : Int64) :
    armv8EncodeAdrp xd Int64.minValue pc = .error .overflow := rfl

theorem armv8EncodeAdrp_of_not_inRange {label pc : Int64} (h : ¬ LabelInRange label)
    (hmin : label ≠ Int64.minValue) :
    ∃ message, armv8EncodeAdrp xd label pc = .error (armv8Exception message) :=
  ⟨_, by rw [armv8EncodeAdrp, if_neg hmin, if_pos ((abs_lt_iff hmin).mpr h)]⟩

end Sp2Module.ArmUtils
