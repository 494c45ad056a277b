import Sp2Module.AdrpAdd

/-!
# Operands and fields

An encoder that does not refuse its operands should return a word of its own instruction with these
operands in its fields. The moves of 32 bits take shifts that only those of 64 bits have, an `add`
takes immediates of more than twelve bits, and an `adrp` takes every register, distances that do not
fit, and the sign of the address for that of the distance.
-/

namespace Sp2Module.ArmUtils

open A64

/-- The encoder refuses its operands, or the word it returns has the property. -/
def Encodes (r : Except Exception Bytes) (P : UInt32 → Prop) : Prop :=
  (∃ message, r = .error (armv8Exception message)) ∨ ∃ word, r = .ok (uintBytes word) ∧ P word

/-- A move of these operands, which its decoder puts in place. -/
def HoldsMove (move : Reg → UInt16 → Fin 2 → Instruction)
    (decoder : Bytes → UInt8 → Except Exception UInt32) (wd : UInt8) (imm : UInt16) (lsl : Int32)
    (word : UInt32) : Prop :=
  ∃ (rd : Reg) (hw : Fin 2), rd.val = wd.toNat ∧ lsl.toInt = 16 * hw.val ∧
    A64.decode word = some (move rd imm hw) ∧
      decoder (uintBytes word) wd = .ok (imm.toUInt32 <<< lsl.toUInt32)

/-- An `add` of these operands, which its decoder adds to every value. -/
def HoldsAdd (xd xn : UInt8) (imm : UInt16) (lsl : Int32) (word : UInt32) : Prop :=
  ∃ (rd rn : Reg) (imm' : Fin 4096) (shift : Fin 2), rd.val = xd.toNat ∧ rn.val = xn.toNat ∧
    imm'.val = imm.toNat ∧ lsl.toInt = 12 * shift.val ∧
      A64.decode word = some (.add rd rn imm' shift) ∧
        ∀ xnValue, armv8DecodeAddImm (uintBytes word) xd xn xnValue =
          .ok (Int64.ofNat (imm.toNat * 4096 ^ shift.val) + xnValue)

/-- An `adrp` of the distance, which its decoder adds to every page. -/
def HoldsAdrp (xd : UInt8) (label pc : Int64) (word : UInt32) : Prop :=
  ∃ rd : Reg, rd.val = xd.toNat ∧ A64.decode word = some (.adrp rd (pageDelta label pc)) ∧
    ∀ page : UInt32, ∃ target, armv8DecodeAdrp (uintBytes word) xd page = .ok target ∧
      target.toInt = (pageDelta label pc + (page.toNat / 4096 : ℕ)) * 4096

variable {word id : UInt32} {wd xd xn : UInt8} {imm : UInt16} {lsl : Int32} {label pc : Int64}
  {P : UInt32 → Prop} {r : Except Exception Bytes}

theorem encodes_iff_of_ok (h : r = .ok (uintBytes word)) : Encodes r P ↔ P word := by
  rw [Encodes, h]
  constructor
  · rintro (⟨message, herror⟩ | ⟨word', hok, hP⟩)
    · exact absurd herror (by simp)
    · rwa [uintBytes_inj (Except.ok.inj hok)]
  · exact fun hP => .inr ⟨word, rfl, hP⟩

/-! ### Moves -/

/-- The two shifts of 32-bit moves. -/
theorem shift_of_half : ∀ hw : Fin 2, (Int32.ofNat (16 * hw.val)).toInt = 16 * hw.val ∧
    (Int32.ofNat (16 * hw.val) / 16).toUInt32.toNat = hw.val ∧
      (Int32.ofNat (16 * hw.val)).toUInt32.toNat = 16 * hw.val := by decide

theorem toNat_imm_shiftLeft (imm : UInt16) (hw : Fin 2) :
    (imm.toUInt32 <<< (Int32.ofNat (16 * hw.val)).toUInt32).toNat =
      imm.toNat * 2 ^ (16 * hw.val) := by
  have himm : imm.toUInt32.toNat = imm.toNat := UInt16.toNat_toUInt32 imm
  have himm_lt := imm.toNat_lt
  have hamount := (shift_of_half hw).2.2
  rw [toNat_shiftLeft_half (by rwa [himm]) hw.isLt hamount, himm]

section move

variable (move : Reg → UInt16 → Fin 2 → Instruction)
  (decoder : Bytes → UInt8 → Except Exception UInt32) (hid : id.toNat < 2 ^ 9)
  (hmove : ∀ word (hhw : field word 21 2 < 2), field word 23 9 = id.toNat →
    A64.decode word = some (move (rd word) (imm16 word) ⟨_, hhw⟩))
  (hdecoder : ∀ word v, field word 23 9 = id.toNat → field word 21 2 < 2 →
    field word 0 5 = wd.toNat → v.toNat = field word 5 16 * 2 ^ (16 * field word 21 2) →
      decoder (uintBytes word) wd = .ok v)

include hid hmove hdecoder

theorem encodes_move_of_half (hw : Fin 2) (hwd : wd.toNat < 32) :
    Encodes (encodeMove id wd imm (Int32.ofNat (16 * hw.val)))
      (HoldsMove move decoder wd imm (Int32.ofNat (16 * hw.val))) := by
  obtain ⟨hint, hdiv, -⟩ := shift_of_half hw
  have hw_lt := hw.isLt
  have hvalid : ∀ hw : Fin 2, MoveShift (Int32.ofNat (16 * hw.val)) := by decide
  obtain ⟨word, hword, hnat⟩ := encodeMove_of_valid imm hid (hvalid hw) hwd
  rw [hdiv] at hnat
  obtain ⟨hcode, hhw, himm, hrd⟩ :=
    fields_of_moveWord hid (by omega) imm.toNat_lt hwd hnat
  have hhw_lt : field word 21 2 < 2 := by omega
  have himm16 : imm16 word = imm := by rw [imm16, himm, UInt16.ofNat_toNat]
  have hhw' : (⟨field word 21 2, hhw_lt⟩ : Fin 2) = hw := Fin.ext hhw
  have hdecode := hmove word hhw_lt hcode
  rw [himm16, hhw'] at hdecode
  refine (encodes_iff_of_ok hword).mpr ⟨rd word, hw, hrd, hint, hdecode, ?_⟩
  refine hdecoder word _ hcode hhw_lt hrd ?_
  rw [toNat_imm_shiftLeft, himm, hhw]

theorem encodes_move_iff :
    Encodes (encodeMove id wd imm lsl) (HoldsMove move decoder wd imm lsl) ↔
      ¬ (wd.toNat < 32 ∧ (lsl = 32 ∨ lsl = 48)) := by
  by_cases hvalid : MoveShift lsl ∧ wd.toNat < 32
  · obtain ⟨rfl | rfl | hhigh, hwd⟩ := hvalid
    · exact iff_of_true (encodes_move_of_half move decoder hid hmove hdecoder 0 hwd)
        (fun h => absurd h.2 (by decide))
    · exact iff_of_true (encodes_move_of_half move decoder hid hmove hdecoder 1 hwd)
        (fun h => absurd h.2 (by decide))
    · refine iff_of_false ?_ (not_not.mpr ⟨hwd, hhigh⟩)
      obtain ⟨word, hword, -⟩ := encodeMove_of_valid imm hid (.inr (.inr hhigh)) hwd
      rw [encodes_iff_of_ok hword]
      rintro ⟨-, hw, -, hint, -⟩
      have hw_lt := hw.isLt
      have hlsl : lsl.toInt = 32 ∨ lsl.toInt = 48 := by
        obtain rfl | rfl := hhigh
        · exact .inl rfl
        · exact .inr rfl
      omega
  · refine iff_of_true (.inl (encodeMove_of_not_valid hvalid)) (fun h => hvalid ⟨?_, h.1⟩)
    unfold MoveShift
    tauto

end move

theorem encodes_movz_iff :
    Encodes (armv8EncodeMovz wd imm lsl) (HoldsMove .movz armv8DecodeMovz wd imm lsl) ↔
      ¬ (wd.toNat < 32 ∧ (lsl = 32 ∨ lsl = 48)) := by
  refine encodes_move_iff .movz armv8DecodeMovz (by decide) (fun word hhw hid => ?_)
    (fun word v hid hhw hrd hv => ?_)
  · exact decode_movz hid hhw
  · exact armv8DecodeMovz_eq_ok.mpr ⟨hrd, .inr ⟨hid, hhw, hv⟩⟩

theorem encodes_movk_iff :
    Encodes (armv8EncodeMovk wd imm lsl) (HoldsMove .movk armv8DecodeMovk wd imm lsl) ↔
      ¬ (wd.toNat < 32 ∧ (lsl = 32 ∨ lsl = 48)) := by
  refine encodes_move_iff .movk armv8DecodeMovk (by decide) (fun word hhw hid => ?_)
    (fun word v hid hhw hrd hv => ?_)
  · exact decode_movk hid hhw
  · exact armv8DecodeMovk_eq_ok.mpr ⟨hid, hhw, hrd, hv⟩

/-! ### Additions and calls -/

theorem encodes_addImm_iff :
    Encodes (armv8EncodeAddImm xd xn imm lsl) (HoldsAdd xd xn imm lsl) ↔
      (AddOperands xd xn lsl → imm.toNat < 4096) := by
  by_cases hvalid : AddOperands xd xn lsl
  · constructor
    · intro h _
      rw [encodes_iff_of_ok (armv8EncodeAddImm_eq_ok hvalid)] at h
      obtain ⟨-, -, imm', -, -, -, himm, -⟩ := h
      rw [← himm]
      exact imm'.isLt
    · intro himm
      have himm := himm hvalid
      obtain ⟨word, hword, hnat⟩ := armv8EncodeAddImm_of_valid hvalid himm
      obtain ⟨hlsl, hxd, hxn⟩ := hvalid
      obtain ⟨shift, hint, hdiv⟩ : ∃ shift : Fin 2, lsl.toInt = 12 * shift.val ∧
          (lsl / 12).toUInt32.toNat = shift.val := by
        obtain rfl | rfl := hlsl
        · exact ⟨0, by decide, by decide⟩
        · exact ⟨1, by decide, by decide⟩
      have hshift_lt := shift.isLt
      rw [hdiv] at hnat
      obtain ⟨hid, hcode, hshift, hshift', himm12, hrn, hrd⟩ :=
        fields_of_addImmWord (by omega) himm hxn hxd hnat
      have hdecode := decode_add hcode (by omega)
      have hshift_eq : (⟨field word 22 2, by omega⟩ : Fin 2) = shift := Fin.ext hshift
      rw [hshift_eq] at hdecode
      refine (encodes_iff_of_ok hword).mpr
        ⟨rd word, rn word, imm12 word, shift, hrd, hrn, himm12, hint, hdecode, fun xnValue => ?_⟩
      refine armv8DecodeAddImm_eq_ok.mpr ⟨hid, hrn, hrd, ?_⟩
      rw [himm12, hshift']
  · exact iff_of_true (.inl (armv8EncodeAddImm_of_not_valid hvalid)) (fun h => absurd h hvalid)

theorem decode_svcWord (svc : UInt16) :
    A64.decode (svcId ||| svc.toUInt32 <<< 5) = some (.svc svc) := by
  have hlt := svc.toNat_lt
  have hnat := toNat_svcWord svc
  generalize svcId ||| svc.toUInt32 <<< 5 = word at *
  have hid : field word 21 11 = 0b11010100000 := by
    unfold field
    omega
  have hll : field word 0 5 = 1 := by
    unfold field
    omega
  have himm : field word 5 16 = svc.toNat := by
    unfold field
    omega
  rw [decode_svc hid hll, imm16, himm, UInt16.ofNat_toNat]

/-! ### Addresses of pages -/

/-- A word of an `adrp` holds the distance if its sign and the rest of it are those of the distance,
and it is not the farthest. -/
theorem holdsAdrp_iff (hop : field word 31 1 = 1) (hcode : field word 24 5 = 0b10000)
    (hrd : field word 0 5 = xd.toNat) (hsign : field word 23 1 = if label < 0 then 1 else 0)
    (hpages : (immPages word : ℤ) = pageDelta label pc % 2 ^ 20) :
    HoldsAdrp xd label pc word ↔ -2 ^ 20 < pageDelta label pc ∧ pageDelta label pc < 2 ^ 20 ∧
      (pageDelta label pc < 0 ↔ label < 0) := by
  have hpages_lt := immPages_lt word
  have hdecode := decode_adrp hop hcode
  have hread : -2 ^ 20 < imm21 word ∧ pagesRead word = imm21 word ∨
      imm21 word = -2 ^ 20 ∧ pagesRead word = 0 := by
    have hsign_lt := field_lt word 23 1
    rw [imm21_eq, pagesRead]
    split_ifs <;> omega
  have himm : imm21 word = pageDelta label pc ↔ -2 ^ 20 ≤ pageDelta label pc ∧
      pageDelta label pc < 2 ^ 20 ∧ (pageDelta label pc < 0 ↔ label < 0) := by
    rw [imm21_eq, hsign]
    by_cases hlabel : label < 0
    · simp only [hlabel, if_true, iff_true]
      omega
    · simp only [hlabel, if_false, iff_false]
      omega
  constructor
  · rintro ⟨rd', hrd', hdecode', hdecoder⟩
    rw [hdecode, Option.some.injEq, Instruction.adrp.injEq] at hdecode'
    obtain ⟨hle, hlt, hneg⟩ := himm.mp hdecode'.2
    obtain ⟨target, htarget, hint⟩ := hdecoder 0
    obtain ⟨-, -, -, hint'⟩ := armv8DecodeAdrp_eq_ok.mp htarget
    refine ⟨?_, hlt, hneg⟩
    have hsame : pagesRead word = pageDelta label pc :=
      add_right_cancel (mul_right_cancel₀ (by decide : (4096 : ℤ) ≠ 0) (hint'.symm.trans hint))
    obtain ⟨hfar, -⟩ | ⟨hfar, hzero⟩ := hread
    · rwa [hdecode'.2] at hfar
    · rw [hdecode'.2, ← hsame, hzero] at hfar
      exact absurd hfar (by decide)
  · rintro ⟨hlt, hlt', hneg⟩
    have hdelta := himm.mpr ⟨hlt.le, hlt', hneg⟩
    refine ⟨rd word, hrd, by rw [hdecode, hdelta], fun page => ?_⟩
    have hpage := page.toNat_lt
    have hread : pagesRead word = pageDelta label pc := by omega
    have htarget : (Int64.ofInt ((pageDelta label pc + (page.toNat / 4096 : ℕ)) * 4096)).toInt =
        (pageDelta label pc + (page.toNat / 4096 : ℕ)) * 4096 :=
      Int64.toInt_ofInt_of_le (by omega) (by omega)
    refine ⟨_, armv8DecodeAdrp_eq_ok.mpr ⟨hop, hcode, hrd, ?_⟩, htarget⟩
    rw [htarget, hread]

theorem encodes_adrp_iff :
    Encodes (armv8EncodeAdrp xd label pc) (HoldsAdrp xd label pc) ↔
      label ≠ Int64.minValue ∧ (LabelInRange label → xd.toNat < 32 ∧
        -2 ^ 20 < pageDelta label pc ∧ pageDelta label pc < 2 ^ 20 ∧
          (pageDelta label pc < 0 ↔ label < 0)) := by
  by_cases hmin : label = Int64.minValue
  · refine iff_of_false ?_ (fun h => h.1 hmin)
    rw [Encodes, hmin, armv8EncodeAdrp_minValue]
    rintro (⟨message, herror⟩ | ⟨word, hok, -⟩)
    · exact absurd herror (by simp [armv8Exception])
    · exact absurd hok (by simp)
  by_cases hrange : LabelInRange label
  · by_cases hxd : xd.toNat < 32
    · obtain ⟨word, hword, hop, hcode, hrd, hsign, hpages⟩ :=
        armv8EncodeAdrp_of_inRange pc hrange hxd
      rw [encodes_iff_of_ok hword, holdsAdrp_iff hop hcode hrd hsign hpages]
      tauto
    · obtain ⟨word, hword⟩ := armv8EncodeAdrp_eq_ok pc hrange
      rw [encodes_iff_of_ok hword]
      refine iff_of_false ?_ (fun h => hxd (h.2 hrange).1)
      rintro ⟨rd', hrd', -⟩
      have hlt := rd'.isLt
      omega
  · exact iff_of_true (.inl (armv8EncodeAdrp_of_not_inRange hrange hmin))
      ⟨hmin, fun h => absurd h hrange⟩

/-- When the words of the encoders hold their operands. -/
theorem encodes_iff (wd xd xn : UInt8) (imm : UInt16) (lsl : Int32) (label pc : Int64) :
    (Encodes (armv8EncodeMovz wd imm lsl) (HoldsMove .movz armv8DecodeMovz wd imm lsl) ↔
      ¬ (wd.toNat < 32 ∧ (lsl = 32 ∨ lsl = 48))) ∧
    (Encodes (armv8EncodeMovk wd imm lsl) (HoldsMove .movk armv8DecodeMovk wd imm lsl) ↔
      ¬ (wd.toNat < 32 ∧ (lsl = 32 ∨ lsl = 48))) ∧
    (Encodes (armv8EncodeAddImm xd xn imm lsl) (HoldsAdd xd xn imm lsl) ↔
      (AddOperands xd xn lsl → imm.toNat < 4096)) ∧
    (Encodes (armv8EncodeAdrp xd label pc) (HoldsAdrp xd label pc) ↔
      label ≠ Int64.minValue ∧ (LabelInRange label → xd.toNat < 32 ∧
        -2 ^ 20 < pageDelta label pc ∧ pageDelta label pc < 2 ^ 20 ∧
          (pageDelta label pc < 0 ↔ label < 0))) ∧
    Encodes (.ok (armv8EncodeSvc imm)) (fun word => A64.decode word = some (.svc imm)) :=
  ⟨encodes_movz_iff, encodes_movk_iff, encodes_addImm_iff, encodes_adrp_iff,
    (encodes_iff_of_ok rfl).mpr (decode_svcWord imm)⟩

/-- An immediate of thirteen bits is taken for a shift. -/
theorem not_encodes_thirteenBits :
    armv8EncodeAddImm 0 1 0x1001 0 = .ok (uintBytes 0x91400420) ∧
      A64.decode 0x91400420 = some (.add 0 1 1 1) ∧
        ¬ Encodes (armv8EncodeAddImm 0 1 0x1001 0) (HoldsAdd 0 1 0x1001 0) :=
  ⟨by decide +kernel, by decide +kernel,
    encodes_addImm_iff.not.mpr fun h => absurd (h (by decide)) (by decide)⟩

end Sp2Module.ArmUtils
