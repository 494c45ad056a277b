import Sp2Module.BitMask
import Mathlib.Logic.Function.Basic
import Mathlib.Algebra.Group.Int.Defs

/-!
# A64 data processing with immediates

The instructions that load constants and form addresses: their encodings, and what they do to the
general registers and the stack pointer. Register 31 is the zero register or the stack pointer, as
the instruction has it.
-/

namespace Sp2Module.A64

abbrev Reg := Fin 32

/-- The halfword of a 32-bit register that a move goes to is `hw`; the immediate of `adrp` counts
pages. -/
inductive Instruction where
  | movz (rd : Reg) (imm : UInt16) (hw : Fin 2)
  | movk (rd : Reg) (imm : UInt16) (hw : Fin 2)
  | orr (rd rn : Reg) (imm : BitVec 32)
  | adrp (rd : Reg) (imm : ℤ)
  | add (rd rn : Reg) (imm : Fin 4096) (shift : Fin 2)
  | svc (imm : UInt16)
deriving DecidableEq, Repr

/-- The `width` bits of a word from bit `lo` on. -/
def field (word : UInt32) (lo width : ℕ) : ℕ := word.toNat / 2 ^ lo % 2 ^ width

def rd (word : UInt32) : Reg := ⟨field word 0 5, Nat.mod_lt _ (by decide)⟩

def rn (word : UInt32) : Reg := ⟨field word 5 5, Nat.mod_lt _ (by decide)⟩

def imm16 (word : UInt32) : UInt16 := UInt16.ofNat (field word 5 16)

def imm12 (word : UInt32) : Fin 4096 := ⟨field word 10 12, Nat.mod_lt _ (by decide)⟩

/-- `immhi:immlo`, a signed number of 21 bits. -/
def imm21 (word : UInt32) : ℤ := ((field word 5 19 * 4 + field word 29 2 : ℕ) : ℤ).bmod (2 ^ 21)

/-- The instruction of a word, `none` where the word is allocated to none of them. -/
def decode (word : UInt32) : Option Instruction :=
  if field word 23 9 = 0b010100101 then
    if h : field word 21 2 < 2 then some (.movz (rd word) (imm16 word) ⟨_, h⟩) else none
  else if field word 23 9 = 0b011100101 then
    if h : field word 21 2 < 2 then some (.movk (rd word) (imm16 word) ⟨_, h⟩) else none
  else if field word 22 10 = 0b0011001000 then
    (decodeBitMasks 32 (field word 10 6) (field word 16 6)).map (.orr (rd word) (rn word))
  else if field word 31 1 = 1 ∧ field word 24 5 = 0b10000 then some (.adrp (rd word) (imm21 word))
  else if field word 24 8 = 0b10010001 then
    if h : field word 22 2 < 2 then some (.add (rd word) (rn word) (imm12 word) ⟨_, h⟩) else none
  else if field word 21 11 = 0b11010100000 ∧ field word 0 5 = 1 then some (.svc (imm16 word))
  else none

section decode

variable {word : UInt32}

/-! The high byte tells the groups of instructions apart. -/

theorem not_move_of_highByte (word : UInt32) (hmovz : field word 24 8 ≠ 0x52)
    (hmovk : field word 24 8 ≠ 0x72) :
    field word 23 9 ≠ 0b010100101 ∧ field word 23 9 ≠ 0b011100101 := by
  unfold field at hmovz hmovk ⊢
  omega

theorem not_orr_of_highByte (word : UInt32) (horr : field word 24 8 ≠ 0x32) :
    field word 22 10 ≠ 0b0011001000 := by
  unfold field at horr ⊢
  omega

theorem not_adrp_of_highByte (word : UInt32) (hadrp : field word 24 8 % 32 ≠ 16) :
    ¬ (field word 31 1 = 1 ∧ field word 24 5 = 0b10000) := by
  unfold field at hadrp ⊢
  omega

theorem decode_movz (hid : field word 23 9 = 0b010100101) (hhw : field word 21 2 < 2) :
    decode word = some (.movz (rd word) (imm16 word) ⟨_, hhw⟩) := by
  rw [decode, if_pos hid, dif_pos hhw]

theorem decode_movk (hid : field word 23 9 = 0b011100101) (hhw : field word 21 2 < 2) :
    decode word = some (.movk (rd word) (imm16 word) ⟨_, hhw⟩) := by
  have hmovz : field word 23 9 ≠ 0b010100101 := by omega
  rw [decode, if_neg hmovz, if_pos hid, dif_pos hhw]

theorem decode_orr (hid : field word 22 10 = 0b0011001000) :
    decode word =
      (decodeBitMasks 32 (field word 10 6) (field word 16 6)).map (.orr (rd word) (rn word)) := by
  have hbyte : field word 24 8 = 0x32 := by
    unfold field at hid ⊢
    omega
  have hmove := not_move_of_highByte word (by omega) (by omega)
  rw [decode, if_neg hmove.1, if_neg hmove.2, if_pos hid]

theorem decode_adrp (hop : field word 31 1 = 1) (hcode : field word 24 5 = 0b10000) :
    decode word = some (.adrp (rd word) (imm21 word)) := by
  have hbyte : 128 ≤ field word 24 8 := by
    unfold field at hop ⊢
    omega
  have hmove := not_move_of_highByte word (by omega) (by omega)
  have horr := not_orr_of_highByte word (by omega)
  rw [decode, if_neg hmove.1, if_neg hmove.2, if_neg horr, if_pos ⟨hop, hcode⟩]

theorem decode_add (hid : field word 24 8 = 0b10010001) (hshift : field word 22 2 < 2) :
    decode word = some (.add (rd word) (rn word) (imm12 word) ⟨_, hshift⟩) := by
  have hmove := not_move_of_highByte word (by omega) (by omega)
  have horr := not_orr_of_highByte word (by omega)
  have hadrp := not_adrp_of_highByte word (by omega)
  rw [decode, if_neg hmove.1, if_neg hmove.2, if_neg horr, if_neg hadrp, if_pos hid, dif_pos hshift]

theorem decode_svc (hid : field word 21 11 = 0b11010100000) (hll : field word 0 5 = 1) :
    decode word = some (.svc (imm16 word)) := by
  have hbyte : field word 24 8 = 0xD4 := by
    unfold field at hid ⊢
    omega
  have hmove := not_move_of_highByte word (by omega) (by omega)
  have horr := not_orr_of_highByte word (by omega)
  have hadrp := not_adrp_of_highByte word (by omega)
  have hadd : field word 24 8 ≠ 0b10010001 := by omega
  rw [decode, if_neg hmove.1, if_neg hmove.2, if_neg horr, if_neg hadrp, if_neg hadd,
    if_pos ⟨hid, hll⟩]

end decode

/-! ### Execution -/

structure State where
  x : Fin 31 → UInt64
  sp : UInt64
  pc : UInt64

namespace State

variable (s : State) (r : Reg) (v : UInt64)

/-- Register 31 is the zero register. -/
def read : UInt64 := if h : r.val < 31 then s.x ⟨r.val, h⟩ else 0

def write : State := if h : r.val < 31 then { s with x := Function.update s.x ⟨r.val, h⟩ v } else s

/-- Register 31 is the stack pointer. -/
def readSp : UInt64 := if h : r.val < 31 then s.x ⟨r.val, h⟩ else s.sp

def writeSp : State :=
  if h : r.val < 31 then { s with x := Function.update s.x ⟨r.val, h⟩ v } else { s with sp := v }

/-- The low word of a register. -/
def readW : UInt32 := (s.read r).toUInt32

def next : State := { s with pc := s.pc + 4 }

end State

/-- `word` with its halfword `hw` replaced. -/
def setHalf (word : UInt32) (imm : UInt16) (hw : Fin 2) : UInt32 :=
  word &&& ~~~(0xFFFF <<< UInt32.ofNat (16 * hw.val)) |||
    imm.toUInt32 <<< UInt32.ofNat (16 * hw.val)

/-- What an instruction does; a call of the supervisor goes elsewhere. Results of 32 bits clear the
high word of their register. -/
def execute (s : State) : Instruction → Option State
  | .movz rd imm hw =>
    some (s.write rd (imm.toUInt32 <<< UInt32.ofNat (16 * hw.val)).toUInt64).next
  | .movk rd imm hw => some (s.write rd (setHalf (s.readW rd) imm hw).toUInt64).next
  | .orr rd rn imm => some (s.writeSp rd (s.readW rn ||| UInt32.ofBitVec imm).toUInt64).next
  | .adrp rd imm =>
    some (s.write rd ((s.pc &&& ~~~0xFFF) + UInt64.ofInt (imm * 4096))).next
  | .add rd rn imm shift =>
    some (s.writeSp rd (s.readSp rn + UInt64.ofNat (imm.val * 4096 ^ shift.val))).next
  | .svc _ => none

/-- Executes words one after another. -/
def run (s : State) : List UInt32 → Option State
  | [] => some s
  | word :: words => do
    let s ← execute s (← decode word)
    run s words

namespace State

variable {s : State} {r : Reg} {v : UInt64}

@[simp] theorem read_next : s.next.read r = s.read r := rfl
@[simp] theorem readW_next : s.next.readW r = s.readW r := rfl
@[simp] theorem readSp_next : s.next.readSp r = s.readSp r := rfl

theorem read_of_not_lt (hr : ¬ r.val < 31) : s.read r = 0 := by rw [read, dif_neg hr]

theorem readW_of_not_lt (hr : ¬ r.val < 31) : s.readW r = 0 := by
  rw [readW, read_of_not_lt hr]
  rfl

theorem read_write (hr : r.val < 31) : (s.write r v).read r = v := by
  rw [read, dif_pos hr, write, dif_pos hr]
  exact Function.update_self _ _ _

theorem read_writeSp (hr : r.val < 31) : (s.writeSp r v).read r = v := by
  rw [read, dif_pos hr, writeSp, dif_pos hr]
  exact Function.update_self _ _ _

theorem readW_write {w : UInt32} (hr : r.val < 31) : (s.write r w.toUInt64).readW r = w := by
  rw [readW, read_write hr, UInt32.toUInt32_toUInt64]

theorem readW_writeSp {w : UInt32} (hr : r.val < 31) : (s.writeSp r w.toUInt64).readW r = w := by
  rw [readW, read_writeSp hr, UInt32.toUInt32_toUInt64]

theorem readSp_write (hr : r.val < 31) : (s.write r v).readSp r = v := by
  rw [readSp, dif_pos hr, write, dif_pos hr]
  exact Function.update_self _ _ _

theorem readSp_writeSp : (s.writeSp r v).readSp r = v := by
  by_cases hr : r.val < 31
  · rw [readSp, dif_pos hr, writeSp, dif_pos hr]
    exact Function.update_self _ _ _
  · rw [readSp, dif_neg hr, writeSp, dif_neg hr]

end State

theorem run_cons {s : State} {word : UInt32} {words : List UInt32} {i : Instruction}
    (h : decode word = some i) :
    run s (word :: words) = (execute s i).bind fun s => run s words := by
  rw [run, h]
  rfl

section halfwords

variable {j : ℕ}

/-- The bits of a halfword in its place. -/
theorem getLsbD_shiftLeft_half (imm : UInt16) (hw : Fin 2) (hj : j < 32) :
    (imm.toUInt32 <<< UInt32.ofNat (16 * hw.val)).toBitVec.getLsbD j =
      (decide (j / 16 = hw.val) && imm.toBitVec.getLsbD (j % 16)) := by
  have hamount : ∀ hw : Fin 2,
      ((UInt32.ofNat (16 * hw.val)).toBitVec % 32#32).toNat = 16 * hw.val := by decide
  have himm : imm.toUInt32.toBitVec = imm.toBitVec.setWidth 32 := rfl
  rw [UInt32.toBitVec_shiftLeft, BitVec.shiftLeft_eq', BitVec.getLsbD_shiftLeft, himm,
    BitVec.getLsbD_setWidth]
  change (decide (j < 32) && !decide (j < ((UInt32.ofNat (16 * hw.val)).toBitVec % 32#32).toNat) &&
    (decide (j - ((UInt32.ofNat (16 * hw.val)).toBitVec % 32#32).toNat < 32) &&
      imm.toBitVec.getLsbD (j - ((UInt32.ofNat (16 * hw.val)).toBitVec % 32#32).toNat))) = _
  rw [hamount, decide_eq_true hj, decide_eq_true (show j - 16 * hw.val < 32 by omega),
    Bool.true_and, Bool.true_and, ← decide_not, decide_eq_decide.mpr Nat.not_lt]
  by_cases hhalf : j / 16 = hw.val
  · rw [decide_eq_true hhalf, decide_eq_true (show 16 * hw.val ≤ j by omega),
      show j - 16 * hw.val = j % 16 by omega]
  · rw [decide_eq_false hhalf, Bool.false_and]
    by_cases hle : 16 * hw.val ≤ j
    · rw [BitVec.getLsbD_of_ge _ _ (by omega), Bool.and_false]
    · rw [decide_eq_false hle, Bool.false_and]

/-- Only one halfword is replaced. -/
theorem getLsbD_setHalf (word : UInt32) (imm : UInt16) (hw : Fin 2) (hj : j < 32) :
    (setHalf word imm hw).toBitVec.getLsbD j =
      if j / 16 = hw.val then imm.toBitVec.getLsbD (j % 16) else word.toBitVec.getLsbD j := by
  have hones : (0xFFFF : UInt16).toBitVec.getLsbD (j % 16) = true := by
    have hlt : j % 16 < 16 := Nat.mod_lt _ (by decide)
    exact BitVec.getLsbD_allOnes.trans (decide_eq_true hlt)
  have hmask : (0xFFFF <<< UInt32.ofNat (16 * hw.val) : UInt32).toBitVec.getLsbD j =
      decide (j / 16 = hw.val) := by
    have hbits := getLsbD_shiftLeft_half 0xFFFF hw hj
    rwa [hones, Bool.and_true] at hbits
  rw [setHalf, UInt32.toBitVec_or, UInt32.toBitVec_and, UInt32.toBitVec_not, BitVec.getLsbD_or,
    BitVec.getLsbD_and, BitVec.getLsbD_not, hmask, getLsbD_shiftLeft_half imm hw hj,
    decide_eq_true hj]
  split_ifs with hhalf
  · simp [hhalf]
  · simp [hhalf]

end halfwords

/-! ### Words from fields -/

theorem field_lt (word : UInt32) (lo width : ℕ) : field word lo width < 2 ^ width :=
  Nat.mod_lt _ (Nat.two_pow_pos width)

/-- Shifting and masking reads a field. -/
theorem toNat_and_mask (word : UInt32) {lo mask : UInt32} (hlo : lo < 32) {width : ℕ}
    (hmask : mask.toNat = 2 ^ width - 1) :
    ((word >>> lo) &&& mask).toNat = field word lo.toNat width := by
  have hlo : lo.toNat < 32 := UInt32.lt_iff_toNat_lt.mp hlo
  rw [UInt32.toNat_and, UInt32.toNat_shiftRight, Nat.mod_eq_of_lt hlo, hmask,
    Nat.shiftRight_eq_div_pow, Nat.and_two_pow_sub_one_eq_mod, field]

theorem toNat_and_low (word : UInt32) {mask : UInt32} {width : ℕ}
    (hmask : mask.toNat = 2 ^ width - 1) : (word &&& mask).toNat = field word 0 width := by
  rw [UInt32.toNat_and, hmask, Nat.and_two_pow_sub_one_eq_mod, field, pow_zero, Nat.div_one]

theorem toNat_shiftRight (word : UInt32) {lo : UInt32} (hlo : lo < 32) :
    (word >>> lo).toNat = field word lo.toNat (32 - lo.toNat) := by
  have hlo : lo.toNat < 32 := UInt32.lt_iff_toNat_lt.mp hlo
  rw [UInt32.toNat_shiftRight, Nat.mod_eq_of_lt hlo, Nat.shiftRight_eq_div_pow, field,
    Nat.mod_eq_of_lt]
  apply Nat.div_lt_of_lt_mul
  rw [← pow_add, Nat.add_sub_cancel' hlo.le]
  exact word.toNat_lt

/-- A value in place at `lo`, where it does not leave the word. -/
theorem toNat_shiftLeft {x lo : UInt32} (hlo : lo < 32) (h : x.toNat * 2 ^ lo.toNat < 2 ^ 32) :
    (x <<< lo).toNat = x.toNat * 2 ^ lo.toNat := by
  have hlo : lo.toNat < 32 := UInt32.lt_iff_toNat_lt.mp hlo
  rw [UInt32.toNat_shiftLeft, Nat.mod_eq_of_lt hlo, Nat.shiftLeft_eq, Nat.mod_eq_of_lt h]

/-- A halfword in place. -/
theorem toNat_shiftLeft_half {x lo : UInt32} {hw : ℕ} (hx : x.toNat < 2 ^ 16) (hhw : hw < 2)
    (hlo : lo.toNat = 16 * hw) : (x <<< lo).toNat = x.toNat * 2 ^ (16 * hw) := by
  have hlt : lo < 32 := by
    rw [UInt32.lt_iff_toNat_lt, hlo]
    change _ < 32
    omega
  have hfits : x.toNat * 2 ^ (16 * hw) < 2 ^ 32 := by
    calc x.toNat * 2 ^ (16 * hw)
        ≤ x.toNat * 2 ^ 16 := Nat.mul_le_mul_left _ (Nat.pow_le_pow_right (by decide) (by omega))
      _ < 2 ^ 32 := by omega
  rw [toNat_shiftLeft hlt (by rwa [hlo]), hlo]

/-- Fields that do not overlap add up. -/
theorem toNat_or {x y : UInt32} (lo : ℕ) (hx : 2 ^ lo ∣ x.toNat) (hy : y.toNat < 2 ^ lo) :
    (x ||| y).toNat = x.toNat + y.toNat := by
  obtain ⟨a, ha⟩ := hx
  rw [UInt32.toNat_or, ha, Nat.two_pow_add_eq_or_of_lt hy]

end Sp2Module.A64
