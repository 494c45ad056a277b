import Sp2Module.ArmUtils
import Sp2Module.A64Instruction

/-!
# The other encodings of ArmUtils

The encoders and decoders of the moves, of `adrp` and `add`, and of the two-word sequences that load
a constant and form an address. Words are put together from operands of wider types, and a decoder
checks a word against the registers it is given. Decoders read the first four bytes.
-/

namespace Sp2Module.ArmUtils

def wzr : UInt8 := 0x1F

def movzId : UInt32 := 0b010100101
def movkId : UInt32 := 0b011100101
def adrpId : UInt32 := 0b100100000
def addImmId : UInt32 := 0b100100010
def svcId : UInt32 := 0xD4000001
def orrId : UInt32 := 0b0011001000

def armv8Exception (message : String) : Exception := .app (.armv8 message)

/-- The format `X8`. -/
def hex8 (x : UInt32) : String :=
  String.ofList ((List.range 8).reverse.map fun i =>
    (Nat.digitChar (x.toNat / 16 ^ i % 16)).toUpper)

/-! ### Bit masks -/

/-- The index goes up, and a signed index that goes up ends below zero. -/
def highestSetBitFrom : ℕ → Int32 → Int32
  | 0, _ => -1
  | fuel + 1, i =>
    if 0 ≤ i then if i &&& (1 <<< i) ≠ 0 then i else highestSetBitFrom fuel (i + 1) else -1

def highestSetBit (_x : UInt32) : Int32 := highestSetBitFrom (2 ^ 31) 3

def bitmask64 (length : Int32) : UInt64 := ~~~0 >>> (64 - length).toUInt32.toUInt64

/-- Six rounds bring every positive size to 64. -/
def bitfieldReplicateFrom : ℕ → UInt64 → Int32 → UInt64
  | 0, mask, _ => mask
  | fuel + 1, mask, e =>
    if e < 64 then bitfieldReplicateFrom fuel (mask ||| mask <<< e.toUInt32.toUInt64) (e * 2)
    else mask

def bitfieldReplicate (mask : UInt64) (e : Int32) : UInt64 := bitfieldReplicateFrom 6 mask e

def decodeBitMasks (immn imms immr : UInt32) : Except Exception UInt64 :=
  let len := highestSetBit (immn <<< 6 ||| ~~~imms)
  if len < 1 then .error (armv8Exception "Reserved")
  else
    let e : Int32 := 1 <<< len
    let levels := e - 1
    let s := (imms &&& levels.toUInt32).toInt32
    let r := (immr &&& levels.toUInt32).toInt32
    if s = levels then
      .error (armv8Exception "Exception of type 'NxUtils.Armv8Exception' was thrown.")
    else
      let mask := bitmask64 (s + 1)
      let mask :=
        if r ≠ 0 then
          (mask >>> r.toUInt32.toUInt64 ||| mask <<< (e - r).toUInt32.toUInt64) &&& bitmask64 e
        else mask
      .ok (bitfieldReplicate mask e)

/-! ### Encoders -/

/-- The common body of the two move encoders. -/
def encodeMove (id : UInt32) (wd : UInt8) (imm : UInt16) (lsl : Int32) : Except Exception Bytes :=
  if lsl ≠ 0 ∧ lsl ≠ 16 ∧ lsl ≠ 32 ∧ lsl ≠ 48 then
    .error (armv8Exception "LSL Must be 0, 16, 32 or 48")
  else if 0x1F < wd then .error (armv8Exception "Register must be between 0 and 31")
  else
    .ok (uintBytes (id <<< 23 ||| (lsl / 16).toUInt32 <<< 21 ||| imm.toUInt32 <<< 5 |||
      wd.toUInt32))

def armv8EncodeMovz (wd : UInt8) (imm : UInt16) (lsl : Int32) : Except Exception Bytes :=
  encodeMove movzId wd imm lsl

def armv8EncodeMovk (wd : UInt8) (imm : UInt16) (lsl : Int32) : Except Exception Bytes :=
  encodeMove movkId wd imm lsl

/-- `Math.Abs` overflows at the least value. The register is not checked, and the sign is that of
the label. -/
def armv8EncodeAdrp (xd : UInt8) (label pc : Int64) : Except Exception Bytes :=
  let neg : UInt32 := if label < 0 then 1 else 0
  if label = Int64.minValue then .error .overflow
  else if 0xFFFFF000 < label.abs then
    .error (armv8Exception "Label must be between -0xFFFFF000 and 0xFFFFF000")
  else
    let v := ((label.toUInt64 >>> 12) - (pc.toUInt64 >>> 12)).toUInt32 &&& 0xFFFFF
    .ok (uintBytes (adrpId <<< 23 ||| (v &&& 3) <<< 29 ||| (v >>> 2) <<< 5 ||| xd.toUInt32 |||
      neg <<< 23))

def armv8EncodeAddImm (xd xn : UInt8) (imm : UInt16) (lsl : Int32) : Except Exception Bytes :=
  if lsl ≠ 0 ∧ lsl ≠ 12 then .error (armv8Exception "LSL Must be either 0 or 12")
  else if 0x1F < xd ∨ 0x1F < xn then .error (armv8Exception "Register must be between 0 and 31")
  else
    .ok (uintBytes (addImmId <<< 23 ||| (lsl / 12).toUInt32 <<< 22 ||| imm.toUInt32 <<< 10 |||
      xn.toUInt32 <<< 5 ||| xd.toUInt32))

def armv8EncodeSvc (svc : UInt16) : Bytes := uintBytes (svcId ||| svc.toUInt32 <<< 5)

/-! ### Decoders -/

def armv8DecodeOrr (opcode : Bytes) (wd wn : UInt8) : Except Exception UInt64 := do
  let ins ← toUInt32 opcode
  let regd := (ins &&& 0x1F).toUInt8
  let regn := ((ins >>> 5) &&& 0x1F).toUInt8
  let imms := (ins >>> 10) &&& 0x1F
  let immr := (ins >>> 16) &&& 0x3F
  let id := ins >>> 22
  if id ≠ orrId then .error (armv8Exception ("Invalid ADD : 0x" ++ hex8 ins))
  else if regn ≠ wn then .error (armv8Exception "Source register doesn't match")
  else if regd ≠ wd then .error (armv8Exception "Destination register doesn't match")
  else decodeBitMasks 0 imms immr

/-- The common body of the two move decoders. -/
def decodeMove (name : String) (moveId : UInt32) (opcode : Bytes) (wd : UInt8) :
    Except Exception UInt32 := do
  let ins ← toUInt32 opcode
  let id := ins >>> 23
  let shift := ((ins >>> 21) &&& 3).toUInt8
  let val := ((ins >>> 5) &&& 0xFFFF).toUInt16
  let reg := (ins &&& 0x1F).toUInt8
  if id ≠ moveId ∨ 1 < shift then
    .error (armv8Exception ("Invalid " ++ name ++ " : 0x" ++ hex8 ins))
  else if reg ≠ wd then .error (armv8Exception "Destination register doesn't match")
  else .ok (val.toUInt32 <<< (shift * 16).toUInt32)

/-- An `orr` from the zero register is tried first. -/
def armv8DecodeMovz (opcode : Bytes) (wd : UInt8) : Except Exception UInt32 :=
  match armv8DecodeOrr opcode wd wzr with
  | .ok imm => .ok imm.toUInt32
  | .error (.app (.armv8 _)) => decodeMove "MOVZ" movzId opcode wd
  | .error x => .error x

def armv8DecodeMovk (opcode : Bytes) (wd : UInt8) : Except Exception UInt32 :=
  decodeMove "MOVK" movkId opcode wd

def armv8DecodeAdrp (opcode : Bytes) (xd : UInt8) (pc : UInt32) : Except Exception Int64 := do
  let ins ← toUInt32 opcode
  let id := (ins >>> 23) &&& ~~~0b11000000
  let val := ((ins >>> 5) &&& 0x3FFFF) <<< 2 ||| ((ins >>> 29) &&& 3)
  let reg := (ins &&& 0x1F).toUInt8
  if id &&& ~~~1 ≠ adrpId then .error (armv8Exception ("Invalid ADRP : 0x" ++ hex8 ins))
  else if reg ≠ xd then .error (armv8Exception "Destination register doesn't match")
  else
    let val := val <<< 12
    -- the difference is taken in 32 bits, so a word of zero stays zero
    let ret := if id &&& 1 ≠ 0 then 0 - (0 - val).toUInt64.toInt64 else val.toUInt64.toInt64
    .ok (ret + (pc &&& ~~~0xFFF).toUInt64.toInt64)

def armv8DecodeAddImm (opcode : Bytes) (xd xn : UInt8) (xnValue : Int64) :
    Except Exception Int64 := do
  let ins ← toUInt32 opcode
  let id := ins >>> 23
  let shift := ((ins >>> 22) &&& 1).toUInt8
  let val := ((ins >>> 10) &&& 0xFFF).toUInt16
  let regn := ((ins >>> 5) &&& 0x1F).toUInt8
  let regd := (ins &&& 0x1F).toUInt8
  if id ≠ addImmId then .error (armv8Exception ("Invalid ADD : 0x" ++ hex8 ins))
  else if regn ≠ xn then .error (armv8Exception "Source register doesn't match")
  else if regd ≠ xd then .error (armv8Exception "Destination register doesn't match")
  else .ok (val.toUInt64.toInt64 <<< (shift * 12).toUInt64.toInt64 + xnValue)

/-! ### Two words -/

def armv8DecodeAdrpAdd (opcode : Bytes) (pc : UInt32) (xd : UInt8) : Except Exception Int64 := do
  let data ← armv8DecodeAdrp (opcode.take 4) xd pc
  armv8DecodeAddImm ((opcode.drop 4).take 4) xd xd data

def armv8DecodeMovzMovk (opcode : Bytes) (wd : UInt8) : Except Exception UInt32 := do
  let val ← armv8DecodeMovz (opcode.take 4) wd
  return val ||| (← armv8DecodeMovk ((opcode.drop 4).take 4) wd)

def armv8EncodeAdrpAdd (pc : UInt32) (xd : UInt8) (value : Int64) : Except Exception Bytes := do
  let adrp ← armv8EncodeAdrp xd value pc.toUInt64.toInt64
  let add ← armv8EncodeAddImm xd xd (value &&& 0xFFF).toUInt64.toUInt16 0
  return adrp ++ add

def armv8EncodeMovzMovk (value : UInt32) (wd : UInt8) : Except Exception Bytes := do
  let upper := ((value >>> 16) &&& 0xFFFF).toUInt16
  let lower := (value &&& 0xFFFF).toUInt16
  let movz ← armv8EncodeMovz wd upper 16
  let movk ← armv8EncodeMovk wd lower 0
  return movz ++ movk

/-! ### The words of a pair -/

section pair

variable (first second : UInt32)

theorem take_words : (uintBytes first ++ uintBytes second).take 4 = uintBytes first :=
  List.take_left' (length_uintBytes first)

theorem take_drop_words :
    ((uintBytes first ++ uintBytes second).drop 4).take 4 = uintBytes second := by
  rw [List.drop_left' (length_uintBytes first), List.take_of_length_le (length_uintBytes _).le]

end pair

/-! ### The masks the code makes -/

open A64

@[simp] theorem highestSetBit_eq (x : UInt32) : highestSetBit x = 37 := rfl

theorem bitfieldReplicate_eq (mask : UInt64) : bitfieldReplicate mask 32 = mask ||| mask <<< 32 :=
  rfl

theorem getLsbD_shiftRight (x : UInt64) {n : UInt64} (hn : n.toNat < 64) (i : ℕ) :
    (x >>> n).toBitVec.getLsbD i = x.toBitVec.getLsbD (n.toNat + i) := by
  rw [UInt64.toBitVec_shiftRight, BitVec.ushiftRight_eq', BitVec.getLsbD_ushiftRight,
    BitVec.toNat_umod]
  change x.toBitVec.getLsbD (n.toNat % 64 + i) = _
  rw [Nat.mod_eq_of_lt hn]

theorem getLsbD_shiftLeft (x : UInt64) {n : UInt64} (hn : n.toNat < 64) {i : ℕ} (hi : i < 64) :
    (x <<< n).toBitVec.getLsbD i = (decide (n.toNat ≤ i) && x.toBitVec.getLsbD (i - n.toNat)) := by
  have hmod : (n.toBitVec % 64#64).toNat = n.toNat := Nat.mod_eq_of_lt hn
  rw [UInt64.toBitVec_shiftLeft, BitVec.shiftLeft_eq', BitVec.getLsbD_shiftLeft]
  change (decide (i < 64) && !decide (i < (n.toBitVec % 64#64).toNat) &&
    x.toBitVec.getLsbD (i - (n.toBitVec % 64#64).toNat)) = _
  rw [hmod, decide_eq_true hi, Bool.true_and, ← decide_not, decide_eq_decide.mpr Nat.not_lt]

/-- The low ones of a mask. -/
theorem getLsbD_bitmask64 {n : ℕ} (hn : n < 32) (i : ℕ) :
    (bitmask64 (Int32.ofNat n + 1)).toBitVec.getLsbD i = decide (i ≤ n) := by
  have hcount : ∀ n < 32, (64 - (Int32.ofNat n + 1)).toUInt32.toUInt64.toNat = 63 - n := by decide
  have hones : ∀ j, (~~~0 : UInt64).toBitVec.getLsbD j = decide (j < 64) := by
    intro j
    change (BitVec.allOnes 64).getLsbD j = _
    exact BitVec.getLsbD_allOnes
  rw [bitmask64, getLsbD_shiftRight _ (by rw [hcount n hn]; omega), hcount n hn, hones,
    decide_eq_decide]
  omega

/-- A run of ones that is rotated and replicated as the code does it. -/
theorem bitfieldReplicate_rotate {s r : ℕ} (hs : s < 31) (hr : r < 32) :
    bitfieldReplicate
      (if Int32.ofNat r ≠ 0 then
        (bitmask64 (Int32.ofNat s + 1) >>> (Int32.ofNat r).toUInt32.toUInt64 |||
          bitmask64 (Int32.ofNat s + 1) <<< (32 - Int32.ofNat r).toUInt32.toUInt64) &&& bitmask64 32
      else bitmask64 (Int32.ofNat s + 1)) 32 = UInt64.ofBitVec (bitMask 64 5 s r) := by
  have hzero : ∀ r < 32, Int32.ofNat r = 0 ↔ r = 0 := by decide
  have hright : ∀ r < 32, (Int32.ofNat r).toUInt32.toUInt64.toNat = r := by decide
  have hleft : ∀ r < 32, (32 - Int32.ofNat r).toUInt32.toUInt64.toNat = 32 - r := by decide
  set mask := (if Int32.ofNat r ≠ 0 then
    (bitmask64 (Int32.ofNat s + 1) >>> (Int32.ofNat r).toUInt32.toUInt64 |||
      bitmask64 (Int32.ofNat s + 1) <<< (32 - Int32.ofNat r).toUInt32.toUInt64) &&& bitmask64 32
    else bitmask64 (Int32.ofNat s + 1)) with hmask
  have hbit {i : ℕ} (hi : i < 64) :
      mask.toBitVec.getLsbD i = decide (i < 32 ∧ (i + r) % 32 ≤ s) := by
    rw [hmask]
    split_ifs with hnonzero
    · have hpos : r ≠ 0 := fun h => hnonzero ((hzero r hr).mpr h)
      have hend : (bitmask64 32).toBitVec.getLsbD i = decide (i ≤ 31) :=
        getLsbD_bitmask64 (by decide : 31 < 32) i
      rw [UInt64.toBitVec_and, UInt64.toBitVec_or, BitVec.getLsbD_and, BitVec.getLsbD_or, hend,
        getLsbD_shiftRight _ (by rw [hright r hr]; omega),
        getLsbD_shiftLeft _ (by rw [hleft r hr]; omega) hi, hright r hr, hleft r hr]
      simp only [getLsbD_bitmask64 (show s < 32 by omega), ← Bool.decide_and, ← Bool.decide_or,
        decide_eq_decide]
      omega
    · have hnone : r = 0 := (hzero r hr).mp (not_not.mp hnonzero)
      rw [getLsbD_bitmask64 (by omega) i, hnone, decide_eq_decide]
      omega
  rw [bitfieldReplicate_eq, ← UInt64.toBitVec_inj]
  apply BitVec.eq_of_getLsbD_eq
  intro i hi
  rw [UInt64.toBitVec_or, BitVec.getLsbD_or, hbit hi, getLsbD_shiftLeft mask (by decide) hi]
  change (_ || decide (32 ≤ i) && mask.toBitVec.getLsbD (i - 32)) = _
  rw [hbit (by omega)]
  change _ = (bitMask 64 5 s r).getLsbD i
  rw [getLsbD_bitMask (by decide) hi r (by omega), ← Bool.decide_and, ← Bool.decide_or,
    decide_eq_decide]
  omega

/-- The element has always 32 bits. -/
theorem decodeBitMasks_eq (immn imms immr : UInt32) :
    decodeBitMasks immn imms immr =
      if imms.toNat % 32 = 31 then
        .error (armv8Exception "Exception of type 'NxUtils.Armv8Exception' was thrown.")
      else .ok (UInt64.ofBitVec (bitMask 64 5 (imms.toNat % 32) (immr.toNat % 32))) := by
  have hlevels (x : UInt32) : (x &&& 31).toInt32 = Int32.ofNat (x.toNat % 32) := by
    have hlow : x &&& 31 = UInt32.ofNat (x.toNat % 32) := by
      rw [← UInt32.toNat_inj, UInt32.toNat_and,
        UInt32.toNat_ofNat_of_lt' ((Nat.mod_le _ _).trans_lt x.toNat_lt)]
      exact Nat.and_two_pow_sub_one_eq_mod x.toNat 5
    rw [hlow]
    rfl
  have hlast : ∀ s < 32, Int32.ofNat s = 31 ↔ s = 31 := by decide
  have hs : imms.toNat % 32 < 32 := Nat.mod_lt _ (by decide)
  have hr : immr.toNat % 32 < 32 := Nat.mod_lt _ (by decide)
  rw [decodeBitMasks]
  -- a shift by 37 is a shift by 5
  have hlen : ¬ (37 : Int32) < 1 := by decide
  have hsize : (1 : Int32) <<< (37 : Int32) = 32 := by decide
  have hsub : (32 : Int32) - 1 = 31 := by decide
  have hcast : (31 : Int32).toUInt32 = 31 := by decide
  simp only [highestSetBit_eq, hlen, if_false, hsize, hsub, hcast, hlevels, hlast _ hs]
  by_cases hfull : imms.toNat % 32 = 31
  · rw [if_pos hfull, if_pos hfull]
  · rw [if_neg hfull, if_neg hfull, bitfieldReplicate_rotate (by omega) hr]

/-! ### What the decoders accept -/

variable {word v : UInt32} {wd wn xd xn : UInt8} {id : UInt32} {name : String} {x : Exception}

theorem toUInt8_eq_iff {a : UInt32} {b : UInt8} (ha : a.toNat < 2 ^ 8) :
    a.toUInt8 = b ↔ a.toNat = b.toNat := by
  rw [← UInt8.toNat_inj, UInt32.toNat_toUInt8, Nat.mod_eq_of_lt ha]

theorem toUInt8_low_eq_iff : (word &&& 0x1F).toUInt8 = wd ↔ field word 0 5 = wd.toNat := by
  have hlow : (word &&& 0x1F).toNat = field word 0 5 := toNat_and_low word rfl
  have hlt := field_lt word 0 5
  rw [toUInt8_eq_iff (by omega), hlow]

theorem toUInt8_next_eq_iff : ((word >>> 5) &&& 0x1F).toUInt8 = wn ↔ field word 5 5 = wn.toNat := by
  have hnext : ((word >>> 5) &&& 0x1F).toNat = field word 5 5 := toNat_and_mask word (by decide) rfl
  have hlt := field_lt word 5 5
  rw [toUInt8_eq_iff (by omega), hnext]

theorem shiftRight_eq_iff {lo : UInt32} (hlo : lo < 32) :
    word >>> lo = id ↔ field word lo.toNat (32 - lo.toNat) = id.toNat := by
  rw [← UInt32.toNat_inj, A64.toNat_shiftRight word hlo]

theorem toNat_val : (((word >>> 5) &&& 0xFFFF).toUInt16).toUInt32.toNat = field word 5 16 := by
  have hmask : ((word >>> 5) &&& 0xFFFF).toNat = field word 5 16 :=
    toNat_and_mask word (by decide) rfl
  rw [UInt16.toNat_toUInt32, UInt32.toNat_toUInt16, hmask]
  exact Nat.mod_eq_of_lt (field_lt word 5 16)

theorem toNat_shift : ((word >>> 21) &&& 3).toUInt8.toNat = field word 21 2 := by
  have hmask : ((word >>> 21) &&& 3).toNat = field word 21 2 := toNat_and_mask word (by decide) rfl
  have hlt := field_lt word 21 2
  rw [UInt32.toNat_toUInt8, hmask]
  exact Nat.mod_eq_of_lt (by omega)

/-- The immediate in its halfword. -/
theorem toNat_val_shiftLeft (hw : field word 21 2 < 2) :
    (((word >>> 5) &&& 0xFFFF).toUInt16.toUInt32 <<<
      (((word >>> 21) &&& 3).toUInt8 * 16).toUInt32).toNat =
        field word 5 16 * 2 ^ (16 * field word 21 2) := by
  have hlo : (((word >>> 21) &&& 3).toUInt8 * 16).toUInt32.toNat = 16 * field word 21 2 := by
    rw [UInt8.toNat_toUInt32, UInt8.toNat_mul, toNat_shift, Nat.mul_comm]
    exact Nat.mod_eq_of_lt (by change 16 * _ < 256; omega)
  have himm : field word 5 16 < 2 ^ 16 := field_lt word 5 16
  rw [toNat_shiftLeft_half (by rwa [toNat_val]) hw hlo, toNat_val]

theorem decodeMove_eq_ok :
    decodeMove name id (uintBytes word) wd = .ok v ↔
      field word 23 9 = id.toNat ∧ field word 21 2 < 2 ∧ field word 0 5 = wd.toNat ∧
        v.toNat = field word 5 16 * 2 ^ (16 * field word 21 2) := by
  have hid : word >>> 23 = id ↔ field word 23 9 = id.toNat := shiftRight_eq_iff (by decide)
  have hshift : (1 : UInt8) < ((word >>> 21) &&& 3).toUInt8 ↔ ¬ field word 21 2 < 2 := by
    rw [UInt8.lt_iff_toNat_lt, toNat_shift, Nat.not_lt]
    exact Iff.rfl
  rw [decodeMove, toUInt32_uintBytes]
  simp only [bind, Except.bind, hid, hshift, toUInt8_low_eq_iff, ne_eq]
  split_ifs with hmove hreg
  · exact iff_of_false (by simp) (by tauto)
  · have hw : field word 21 2 < 2 := by tauto
    rw [Except.ok.injEq, ← UInt32.toNat_inj, toNat_val_shiftLeft hw, eq_comm]
    tauto
  · exact iff_of_false (by simp) (by tauto)

theorem armv8DecodeMovk_eq_ok :
    armv8DecodeMovk (uintBytes word) wd = .ok v ↔
      field word 23 9 = 0b011100101 ∧ field word 21 2 < 2 ∧ field word 0 5 = wd.toNat ∧
        v.toNat = field word 5 16 * 2 ^ (16 * field word 21 2) :=
  decodeMove_eq_ok

theorem decodeMove_eq_error (h : decodeMove name id (uintBytes word) wd = .error x) :
    ∃ message, x = armv8Exception message := by
  rw [decodeMove, toUInt32_uintBytes] at h
  simp only [bind, Except.bind] at h
  split_ifs at h
  · exact ⟨_, (Except.error.inj h).symm⟩
  · exact ⟨_, (Except.error.inj h).symm⟩

theorem armv8DecodeOrr_eq_ok {imm : UInt64} :
    armv8DecodeOrr (uintBytes word) wd wn = .ok imm ↔
      field word 22 10 = 0b0011001000 ∧ field word 5 5 = wn.toNat ∧ field word 0 5 = wd.toNat ∧
        field word 10 6 % 32 ≠ 31 ∧
          imm = UInt64.ofBitVec (bitMask 64 5 (field word 10 6 % 32) (field word 16 6 % 32)) := by
  have hid : word >>> 22 = orrId ↔ field word 22 10 = 0b0011001000 := shiftRight_eq_iff (by decide)
  have himms : ((word >>> 10) &&& 0x1F).toNat % 32 = field word 10 6 % 32 := by
    have hmask : ((word >>> 10) &&& 0x1F).toNat = field word 10 5 :=
      toNat_and_mask word (by decide) rfl
    rw [hmask]
    unfold field
    omega
  have himmr : ((word >>> 16) &&& 0x3F).toNat = field word 16 6 :=
    toNat_and_mask word (by decide) rfl
  have hregn : ((word >>> 5) &&& 0x1F).toUInt8 = wn ↔ _ := toUInt8_next_eq_iff
  have hregd : (word &&& 0x1F).toUInt8 = wd ↔ _ := toUInt8_low_eq_iff
  rw [armv8DecodeOrr, toUInt32_uintBytes]
  simp only [bind, Except.bind, hid, hregn, hregd, decodeBitMasks_eq, himms, himmr, ne_eq]
  split_ifs with horr hwn hwd hfull
  · exact iff_of_false (by simp) (by tauto)
  · rw [Except.ok.injEq, eq_comm]
    tauto
  · exact iff_of_false (by simp) (by tauto)
  · exact iff_of_false (by simp) (by tauto)
  · exact iff_of_false (by simp) (by tauto)

theorem armv8DecodeOrr_eq_error (h : armv8DecodeOrr (uintBytes word) wd wn = .error x) :
    ∃ message, x = armv8Exception message := by
  rw [armv8DecodeOrr, toUInt32_uintBytes] at h
  simp only [bind, Except.bind, decodeBitMasks_eq] at h
  split_ifs at h
  all_goals exact ⟨_, (Except.error.inj h).symm⟩

/-- A move of zeros and a halfword, or a mask that is put into the zero register. -/
theorem armv8DecodeMovz_eq_ok :
    armv8DecodeMovz (uintBytes word) wd = .ok v ↔
      field word 0 5 = wd.toNat ∧
        (field word 22 10 = 0b0011001000 ∧ field word 5 5 = 31 ∧ field word 10 6 % 32 ≠ 31 ∧
            v = UInt32.ofBitVec (bitMask 32 5 (field word 10 6 % 32) (field word 16 6 % 32)) ∨
          field word 23 9 = 0b010100101 ∧ field word 21 2 < 2 ∧
            v.toNat = field word 5 16 * 2 ^ (16 * field word 21 2)) := by
  have hlow (s r : ℕ) (hs : s < 32) : (UInt64.ofBitVec (bitMask 64 5 s r)).toUInt32 =
      UInt32.ofBitVec (bitMask 32 5 s r) := by
    rw [← UInt32.toBitVec_inj, UInt64.toBitVec_toUInt32]
    exact setWidth_bitMask (by decide) (by decide) (by decide) hs
  have hclash : field word 22 10 = 0b0011001000 → field word 23 9 ≠ 0b010100101 := by
    unfold field
    omega
  rw [armv8DecodeMovz]
  cases horr : armv8DecodeOrr (uintBytes word) wd wzr with
  | ok imm =>
    obtain ⟨hid, hregn, hregd, hfull, himm⟩ := armv8DecodeOrr_eq_ok.mp horr
    have hclash := hclash hid
    change Except.ok imm.toUInt32 = .ok v ↔ _
    rw [Except.ok.injEq, himm, hlow _ _ (Nat.mod_lt _ (by decide)), eq_comm]
    change field word 5 5 = 31 at hregn
    tauto
  | error x =>
    obtain ⟨message, rfl⟩ := armv8DecodeOrr_eq_error horr
    change decodeMove "MOVZ" movzId (uintBytes word) wd = .ok v ↔ _
    have hno (h : field word 22 10 = 0b0011001000 ∧ field word 5 5 = 31 ∧
        field word 0 5 = wd.toNat ∧ field word 10 6 % 32 ≠ 31) : False := by
      have hwzr : field word 5 5 = wzr.toNat := h.2.1
      have hok := armv8DecodeOrr_eq_ok.mpr ⟨h.1, hwzr, h.2.2.1, h.2.2.2, rfl⟩
      simp [horr] at hok
    rw [decodeMove_eq_ok]
    change field word 23 9 = 0b010100101 ∧ _ ↔ _
    tauto

theorem armv8DecodeMovz_eq_error (h : armv8DecodeMovz (uintBytes word) wd = .error x) :
    ∃ message, x = armv8Exception message := by
  rw [armv8DecodeMovz] at h
  cases horr : armv8DecodeOrr (uintBytes word) wd wzr with
  | ok imm => simp [horr] at h
  | error y =>
    obtain ⟨message, rfl⟩ := armv8DecodeOrr_eq_error horr
    rw [horr] at h
    exact decodeMove_eq_error h

theorem toInt_toInt64 (x : UInt32) : x.toUInt64.toInt64.toInt = x.toNat := by
  have hlt := x.toNat_lt
  change x.toUInt64.toBitVec.toInt = _
  rw [BitVec.toInt_eq_toNat_bmod]
  change ((x.toUInt64.toNat : ℕ) : ℤ).bmod (2 ^ 64) = _
  rw [UInt32.toNat_toUInt64]
  exact Int.bmod_eq_of_le (by omega) (by omega)

/-- Four kilobytes below `pc`. -/
theorem toInt_page (pc : UInt32) :
    (pc &&& ~~~0xFFF).toUInt64.toInt64.toInt = (pc.toNat / 4096 * 4096 : ℕ) := by
  rw [toInt_toInt64, UInt32.toNat_and]
  have hmask : (~~~0xFFF : UInt32).toNat = 2 ^ 32 - 2 ^ 12 := rfl
  rw [hmask, and_high_mask pc.toNat_lt (by decide)]
  rfl

/-- The number of pages of an `adrp` without its sign. -/
def immPages (word : UInt32) : ℕ := field word 5 18 * 4 + field word 29 2

theorem immPages_lt (word : UInt32) : immPages word < 2 ^ 20 := by
  have hhigh := field_lt word 5 18
  have hlow := field_lt word 29 2
  unfold immPages
  omega

theorem toNat_immPages :
    (((word >>> 5) &&& 0x3FFFF) <<< 2 ||| ((word >>> 29) &&& 3)).toNat = immPages word := by
  have hhigh : ((word >>> 5) &&& 0x3FFFF).toNat = field word 5 18 :=
    toNat_and_mask word (by decide) rfl
  have hlow : ((word >>> 29) &&& 3).toNat = field word 29 2 := toNat_and_mask word (by decide) rfl
  have hhigh_lt := field_lt word 5 18
  have hlow_lt := field_lt word 29 2
  have hplace : (((word >>> 5) &&& 0x3FFFF) <<< 2).toNat = field word 5 18 * 2 ^ 2 := by
    rw [A64.toNat_shiftLeft (by decide) (by rw [hhigh]; change _ * 4 < _; omega), hhigh]
    rfl
  rw [A64.toNat_or 2 (by rw [hplace]; exact Nat.dvd_mul_left _ _) (by omega), hplace, hlow]
  rfl

/-- What is read back of a page number and a sign: the sign is dropped where the number is zero. -/
def pagesRead (word : UInt32) : ℤ :=
  if field word 23 1 = 1 ∧ immPages word ≠ 0 then immPages word - 2 ^ 20 else immPages word

theorem pagesRead_bounds (word : UInt32) : -2 ^ 20 ≤ pagesRead word ∧ pagesRead word < 2 ^ 20 := by
  have hpages := immPages_lt word
  unfold pagesRead
  split_ifs <;> omega

theorem adrpId_iff :
    ((word >>> 23) &&& ~~~0b11000000) &&& ~~~1 = adrpId ↔
      field word 31 1 = 1 ∧ field word 24 5 = 0b10000 := by
  have hbits : ∀ n < 512, (n &&& 0xFFFFFF3F) &&& 0xFFFFFFFE = 0b100100000 ↔
      n / 256 = 1 ∧ n / 2 % 32 = 0b10000 := by decide +kernel
  have hid : (word >>> 23).toNat = field word 23 9 := toNat_shiftRight word (by decide)
  have hmask : (~~~0b11000000 : UInt32).toNat = 0xFFFFFF3F := rfl
  have hone : (~~~1 : UInt32).toNat = 0xFFFFFFFE := rfl
  have hadrp : adrpId.toNat = 0b100100000 := rfl
  have hlt := word.toNat_lt
  rw [← UInt32.toNat_inj, UInt32.toNat_and, UInt32.toNat_and, hid, hmask, hone, hadrp,
    hbits _ (field_lt word 23 9)]
  unfold field
  omega

theorem adrpSign_iff :
    ((word >>> 23) &&& ~~~0b11000000) &&& 1 ≠ 0 ↔ field word 23 1 = 1 := by
  have hbits : ∀ n < 512, (n &&& 0xFFFFFF3F) &&& 1 = 0 ↔ n % 2 = 0 := by decide +kernel
  have hid : (word >>> 23).toNat = field word 23 9 := toNat_shiftRight word (by decide)
  have hmask : (~~~0b11000000 : UInt32).toNat = 0xFFFFFF3F := rfl
  have hone : (1 : UInt32).toNat = 1 := rfl
  have hzero : (0 : UInt32).toNat = 0 := rfl
  have hlt := word.toNat_lt
  rw [ne_eq, ← UInt32.toNat_inj, UInt32.toNat_and, UInt32.toNat_and, hid, hmask, hone, hzero,
    hbits _ (field_lt word 23 9)]
  unfold field
  omega

/-- The number of bytes is negated in 32 bits, which leaves a zero without its sign. -/
theorem toInt_signed {val : UInt32} (hval : val.toNat = immPages word * 2 ^ 12) :
    (if ((word >>> 23) &&& ~~~0b11000000) &&& 1 ≠ 0 then 0 - (0 - val).toUInt64.toInt64
      else val.toUInt64.toInt64).toInt = pagesRead word * 4096 := by
  have hpages := immPages_lt word
  have hneg : (0 - (0 - val).toUInt64.toInt64).toInt = -((2 ^ 32 - val.toNat) % 2 ^ 32 : ℤ) := by
    have hsub : (0 - val).toUInt64.toInt64.toInt = (2 ^ 32 - val.toNat) % 2 ^ 32 := by
      rw [toInt_toInt64, UInt32.toNat_sub]
      change (((2 ^ 32 - val.toNat + 0) % 2 ^ 32 : ℕ) : ℤ) = _
      omega
    rw [Int64.toInt_sub, hsub]
    change (0 - _ : ℤ).bmod (2 ^ 64) = _
    rw [Int.bmod_eq_of_le (by omega) (by omega)]
    omega
  simp only [adrpSign_iff, pagesRead]
  by_cases hsign : field word 23 1 = 1
  · rw [if_pos hsign, hneg]
    split_ifs with hword
    · omega
    · have hzero : immPages word = 0 := by tauto
      omega
  · rw [if_neg hsign, if_neg (fun hword => hsign hword.1), toInt_toInt64]
    omega

theorem armv8DecodeAdrp_eq_ok {pc : UInt32} {v : Int64} :
    armv8DecodeAdrp (uintBytes word) xd pc = .ok v ↔
      field word 31 1 = 1 ∧ field word 24 5 = 0b10000 ∧ field word 0 5 = xd.toNat ∧
        v.toInt = (pagesRead word + (pc.toNat / 4096 : ℕ)) * 4096 := by
  have hpages := immPages_lt word
  have hpc := pc.toNat_lt
  have hval : ((((word >>> 5) &&& 0x3FFFF) <<< 2 ||| ((word >>> 29) &&& 3)) <<< 12).toNat =
      immPages word * 2 ^ 12 := by
    rw [A64.toNat_shiftLeft (by decide) (by rw [toNat_immPages]; change _ * 4096 < _; omega),
      toNat_immPages]
    rfl
  have hpage := toInt_page pc
  rw [armv8DecodeAdrp, toUInt32_uintBytes]
  generalize hvaldef :
    (((word >>> 5) &&& 0x3FFFF) <<< 2 ||| ((word >>> 29) &&& 3)) <<< 12 = val at *
  have hsum :
      ((if ((word >>> 23) &&& ~~~0b11000000) &&& 1 ≠ 0 then 0 - (0 - val).toUInt64.toInt64
        else val.toUInt64.toInt64) + (pc &&& ~~~0xFFF).toUInt64.toInt64).toInt =
          (pagesRead word + (pc.toNat / 4096 : ℕ)) * 4096 := by
    have hbound := pagesRead_bounds word
    rw [Int64.toInt_add, toInt_signed hval, hpage, Int.bmod_eq_of_le (by omega) (by omega)]
    omega
  have hregd : (word &&& 0x1F).toUInt8 = xd ↔ _ := toUInt8_low_eq_iff
  simp only [bind, Except.bind, hvaldef, adrpId_iff, hregd, ne_eq] at hsum ⊢
  by_cases hadrp : field word 31 1 = 1 ∧ field word 24 5 = 0b10000
  · by_cases hxd : field word 0 5 = xd.toNat
    · simp only [hadrp, hxd, and_self, not_true_eq_false, if_false, true_and]
      rw [Except.ok.injEq, ← Int64.toInt_inj, hsum, eq_comm]
    · simp only [hadrp, hxd, and_self, not_true_eq_false, if_false, not_false_eq_true, if_true]
      exact iff_of_false (by simp) (fun h => h.2.2.1)
  · simp only [hadrp, not_false_eq_true, if_true]
    exact iff_of_false (by simp) (fun h => hadrp ⟨h.1, h.2.1⟩)

/-- The immediate of an `add`, moved up as the shift says. -/
theorem addImm_shiftLeft :
    ((word >>> 10) &&& 0xFFF).toUInt16.toUInt64.toInt64 <<<
      (((word >>> 22) &&& 1).toUInt8 * 12).toUInt64.toInt64 =
        Int64.ofNat (field word 10 12 * 4096 ^ field word 22 1) := by
  have hval : ((word >>> 10) &&& 0xFFF).toUInt16.toUInt64.toNat = field word 10 12 := by
    have hmask : ((word >>> 10) &&& 0xFFF).toNat = field word 10 12 :=
      toNat_and_mask word (by decide) rfl
    have hlt := field_lt word 10 12
    rw [UInt16.toNat_toUInt64, UInt32.toNat_toUInt16, hmask]
    exact Nat.mod_eq_of_lt (by omega)
  have hshift : ((word >>> 22) &&& 1).toUInt8 = UInt8.ofNat (field word 22 1) := by
    have hmask : ((word >>> 22) &&& 1).toNat = field word 22 1 :=
      toNat_and_mask word (by decide) rfl
    rw [← hmask]
    rfl
  have hbit : field word 22 1 = 0 ∨ field word 22 1 = 1 := by
    have hlt := field_lt word 22 1
    omega
  rw [hshift, ← Int64.toBitVec_inj, ← BitVec.toNat_inj, Int64.toBitVec_shiftLeft]
  obtain hbit | hbit := hbit
  · have hamount : (UInt8.ofNat 0 * 12).toUInt64.toInt64 = 0 := by decide
    rw [hbit, hamount]
    change (((word >>> 10) &&& 0xFFF).toUInt16.toUInt64.toNat <<< 0) % 2 ^ 64 =
      field word 10 12 * 1 % 2 ^ 64
    rw [hval, Nat.shiftLeft_zero, Nat.mul_one]
  · have hamount : (UInt8.ofNat 1 * 12).toUInt64.toInt64 = 12 := by decide
    rw [hbit, hamount]
    change (((word >>> 10) &&& 0xFFF).toUInt16.toUInt64.toNat <<< 12) % 2 ^ 64 =
      field word 10 12 * 4096 % 2 ^ 64
    rw [hval, Nat.shiftLeft_eq]

theorem armv8DecodeAddImm_eq_ok {xnValue v : Int64} :
    armv8DecodeAddImm (uintBytes word) xd xn xnValue = .ok v ↔
      field word 23 9 = 0b100100010 ∧ field word 5 5 = xn.toNat ∧ field word 0 5 = xd.toNat ∧
        v = Int64.ofNat (field word 10 12 * 4096 ^ field word 22 1) + xnValue := by
  have hid : word >>> 23 = addImmId ↔ field word 23 9 = 0b100100010 := shiftRight_eq_iff (by decide)
  have hregn : ((word >>> 5) &&& 0x1F).toUInt8 = xn ↔ _ := toUInt8_next_eq_iff
  have hregd : (word &&& 0x1F).toUInt8 = xd ↔ _ := toUInt8_low_eq_iff
  rw [armv8DecodeAddImm, toUInt32_uintBytes]
  simp only [bind, Except.bind, hid, hregn, hregd, addImm_shiftLeft, ne_eq]
  generalize Int64.ofNat (field word 10 12 * 4096 ^ field word 22 1) = imm
  split_ifs with hadd hxn hxd
  · rw [Except.ok.injEq, eq_comm]
    tauto
  · exact iff_of_false (by simp) (by tauto)
  · exact iff_of_false (by simp) (by tauto)
  · exact iff_of_false (by simp) (by tauto)

end Sp2Module.ArmUtils
