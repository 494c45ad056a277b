import Sp2Module.Ipc

/-!
# Messages read back

What is read of a message is what the command holds, where the fields of its descriptors are wide
enough; and what the command holds is what has been added to it, where each kind of buffer, static
and handle has been added before the next one.
-/

namespace Sp2Module.Ipc

open WriteList BitFields

/-! ### Descriptors -/

/-- The widths of the fields of a buffer. -/
def Buffer.Fits (b : Buffer) : Prop := b.buffer.toNat < 2 ^ 40 ∧ b.size.toNat < 2 ^ 32

def Static.Fits (s : Static) : Prop :=
  s.buffer.toNat < 2 ^ 40 ∧ s.size.toNat < 2 ^ 16 ∧ s.index.toNat < 2 ^ 6

instance (b : Buffer) : Decidable b.Fits := inferInstanceAs (Decidable (_ ∧ _))
instance (s : Static) : Decidable s.Fits := inferInstanceAs (Decidable (_ ∧ _))

variable {old tls : ℕ → Word} {buf : ℕ} {b : Buffer} {s : Static}

/-- Four bits of an address. -/
theorem toNat_nibble (x : BitVec 64) (k : ℕ) : (x >>> k &&& 15).toNat = x.toNat / 2 ^ k % 16 := by
  have hmask : (15 : BitVec 64).toNat = 2 ^ 4 - 1 := rfl
  rw [toNat_ushiftRight_and hmask]
  rfl

/-- An address from its low word and the two parts of the high one. -/
theorem toNat_address {low high1 high2 : BitVec 64} (hlow : low.toNat < 2 ^ 32)
    (h1 : high1.toNat < 16) (h2 : high2.toNat < 16) :
    (low ||| high1 <<< 32 ||| high2 <<< 36).toNat =
      low.toNat + 2 ^ 32 * high1.toNat + 2 ^ 36 * high2.toNat := by
  have hfirst : (low ||| high1 <<< 32).toNat = low.toNat + 2 ^ 32 * high1.toNat :=
    toNat_or_shiftLeft hlow (by omega)
  have hsecond : (low ||| high1 <<< 32 ||| high2 <<< 36).toNat =
      (low ||| high1 <<< 32).toNat + 2 ^ 36 * high2.toNat :=
    toNat_or_shiftLeft (by omega) (by omega)
  rw [hsecond, hfirst]

theorem address_parts {address : ℕ} (h : address < 2 ^ 40) :
    address % 2 ^ 32 + 2 ^ 32 * (address / 2 ^ 32 % 16) + 2 ^ 36 * (address / 2 ^ 36 % 16) =
      address := by
  omega

theorem toNat_bufferPacked (h : b.Fits) :
    ((b.type.value ||| (b.buffer >>> 32 &&& 15) <<< 28 ||| (b.buffer >>> 36) <<< 2).setWidth
      32).toNat = b.type.value.toNat + 2 ^ 2 * (b.buffer.toNat / 2 ^ 36) +
        2 ^ 28 * (b.buffer.toNat / 2 ^ 32 % 16) := by
  obtain ⟨hbuffer, -⟩ := h
  have htype : b.type.value.toNat < 2 ^ 2 := by cases b.type <;> decide
  have hnibble := toNat_nibble b.buffer 32
  have hhigh := toNat_ushiftRight b.buffer 36
  rw [or_swap_right]
  generalize b.type.value = type at *
  generalize b.buffer >>> 32 &&& 15 = nibble at *
  generalize b.buffer >>> 36 = high at *
  have hfirst : (type ||| high <<< 2).toNat = type.toNat + 2 ^ 2 * high.toNat :=
    toNat_or_shiftLeft htype (by omega)
  have hsecond : (type ||| high <<< 2 ||| nibble <<< 28).toNat =
      (type ||| high <<< 2).toNat + 2 ^ 28 * nibble.toNat :=
    toNat_or_shiftLeft (by omega) (by omega)
  rw [toNat_setWidth_of_lt (by omega)]
  omega

theorem BufferType.ofValue_value (t : BufferType) : BufferType.ofValue t.value.toNat = t := by
  cases t <;> rfl

/-- A buffer is read back. -/
theorem readBuffer_of_written (h : Written old tls buf (bufferDescriptor b)) (hb : b.Fits) :
    readBuffer tls buf = b := by
  rw [bufferDescriptor, written_cons, written_cons, written_cons] at h
  obtain ⟨hsize, haddr, hpacked, -⟩ := h
  have hvalue : (tls (buf + 2)).toNat = _ :=
    (congrArg BitVec.toNat hpacked).trans (toNat_bufferPacked hb)
  have hlow : (tls (buf + 1)).toNat = b.buffer.toNat % 2 ^ 32 := by
    rw [haddr, put, BitVec.toNat_setWidth]
  have hsizeValue : (tls buf).toNat = b.size.toNat := by
    rw [hsize, put, toNat_setWidth_of_lt hb.2]
  obtain ⟨hbuffer, -⟩ := hb
  have htype : b.type.value.toNat < 4 := by cases b.type <;> decide
  have hpackedLt := (tls (buf + 2)).isLt
  have hwide : ∀ i, ((tls i).setWidth 64).toNat = (tls i).toNat := fun _ =>
    BitVec.toNat_setWidth_of_le (by decide)
  have hnibble := toNat_nibble ((tls (buf + 2)).setWidth 64) 2
  have hhigh := toNat_ushiftRight ((tls (buf + 2)).setWidth 64) 28
  rw [hwide] at hnibble hhigh
  have hmask : (3 : BitVec 64).toNat = 2 ^ 2 - 1 := rfl
  have hdiv : b.buffer.toNat / 2 ^ 36 = b.buffer.toNat / 2 ^ 32 / 16 := by
    omega
  have hparts : (tls (buf + 2)).toNat / 2 ^ 28 = b.buffer.toNat / 2 ^ 32 % 16 ∧
      (tls (buf + 2)).toNat / 2 ^ 2 % 16 = b.buffer.toNat / 2 ^ 36 := by
    omega
  have haddress : ((tls (buf + 1)).setWidth 64 |||
      ((tls (buf + 2)).setWidth 64 >>> 28) <<< 32 |||
      ((tls (buf + 2)).setWidth 64 >>> 2 &&& 15) <<< 36) = b.buffer := by
    apply BitVec.eq_of_toNat_eq
    rw [toNat_address (by rw [hwide]; omega) (by omega) (by omega), hwide]
    omega
  have htypeValue : ((tls (buf + 2)).setWidth 64 &&& 3).toNat = b.type.value.toNat := by
    rw [toNat_and_mask hmask, hwide]
    omega
  have hsizeEq : (tls buf).setWidth 64 = b.size := by
    apply BitVec.eq_of_toNat_eq
    rw [hwide, hsizeValue]
  simp only [readBuffer, haddress, htypeValue, hsizeEq, BufferType.ofValue_value]

theorem toNat_staticPacked (h : s.Fits) :
    ((s.index.setWidth 64 ||| s.size <<< 16 ||| (s.buffer >>> 32 &&& 15) <<< 12 |||
      (s.buffer >>> 36 &&& 15) <<< 6).setWidth 32).toNat =
        s.index.toNat + 2 ^ 6 * (s.buffer.toNat / 2 ^ 36 % 16) +
          2 ^ 12 * (s.buffer.toNat / 2 ^ 32 % 16) + 2 ^ 16 * s.size.toNat := by
  obtain ⟨-, hsize, hindex⟩ := h
  have hwide : (s.index.setWidth 64).toNat = s.index.toNat :=
    BitVec.toNat_setWidth_of_le (by decide)
  have hlow := toNat_nibble s.buffer 32
  have hhigh := toNat_nibble s.buffer 36
  rw [or_swap_right (s.index.setWidth 64), or_swap_right, or_swap_right (s.index.setWidth 64)]
  generalize s.index.setWidth 64 = index at *
  generalize s.buffer >>> 32 &&& 15 = low at *
  generalize s.buffer >>> 36 &&& 15 = high at *
  have hfirst : (index ||| high <<< 6).toNat = index.toNat + 2 ^ 6 * high.toNat :=
    toNat_or_shiftLeft (by omega) (by omega)
  have hsecond : (index ||| high <<< 6 ||| low <<< 12).toNat =
      (index ||| high <<< 6).toNat + 2 ^ 12 * low.toNat :=
    toNat_or_shiftLeft (by omega) (by omega)
  have hthird : (index ||| high <<< 6 ||| low <<< 12 ||| s.size <<< 16).toNat =
      (index ||| high <<< 6 ||| low <<< 12).toNat + 2 ^ 16 * s.size.toNat :=
    toNat_or_shiftLeft (by omega) (by omega)
  rw [toNat_setWidth_of_lt (by omega)]
  omega

/-- The parts of the packed word. -/
theorem staticPacked_parts {packed index high low size : ℕ} (hindex : index < 2 ^ 6)
    (hhigh : high < 16) (hlow : low < 16)
    (h : packed = index + 2 ^ 6 * high + 2 ^ 12 * low + 2 ^ 16 * size) :
    packed % 2 ^ 6 = index ∧ packed / 2 ^ 6 % 16 = high ∧ packed / 2 ^ 12 % 16 = low ∧
      packed / 2 ^ 16 = size := by
  omega

/-- A static is read back. -/
theorem readStatic_of_written (h : Written old tls buf (staticSendDescriptor s)) (hs : s.Fits) :
    readStatic tls buf = s := by
  rw [staticSendDescriptor, written_cons, written_cons] at h
  obtain ⟨hpacked, haddr, -⟩ := h
  have hvalue : (tls buf).toNat = _ :=
    (congrArg BitVec.toNat hpacked).trans (toNat_staticPacked hs)
  have hlow : (tls (buf + 1)).toNat = s.buffer.toNat % 2 ^ 32 := by
    rw [haddr, put, BitVec.toNat_setWidth]
  obtain ⟨hbuffer, hsize, hindex⟩ := hs
  have hwide : ∀ i, ((tls i).setWidth 64).toNat = (tls i).toNat := fun _ =>
    BitVec.toNat_setWidth_of_le (by decide)
  have hlowPart := toNat_nibble ((tls buf).setWidth 64) 12
  have hhighPart := toNat_nibble ((tls buf).setWidth 64) 6
  have hsizePart := toNat_ushiftRight ((tls buf).setWidth 64) 16
  rw [hwide] at hlowPart hhighPart hsizePart
  have hmask : (63 : BitVec 64).toNat = 2 ^ 6 - 1 := rfl
  obtain ⟨hindexValue, hhigh, hlowValue, hsizeValue⟩ := staticPacked_parts hindex
    (Nat.mod_lt _ (by decide)) (Nat.mod_lt _ (by decide)) hvalue
  have haddress : ((tls (buf + 1)).setWidth 64 |||
      ((tls buf).setWidth 64 >>> 12 &&& 15) <<< 32 |||
      ((tls buf).setWidth 64 >>> 6 &&& 15) <<< 36) = s.buffer := by
    apply BitVec.eq_of_toNat_eq
    rw [toNat_address (by rw [hwide]; omega) (by omega) (by omega), hwide, hlow, hlowPart,
      hhighPart, hlowValue, hhigh, address_parts hbuffer]
  have hsizeEq : (tls buf).setWidth 64 >>> 16 = s.size := by
    apply BitVec.eq_of_toNat_eq
    rw [hsizePart, hsizeValue]
  have hindexEq : ((tls buf).setWidth 64 &&& 63).setWidth 8 = s.index := by
    apply BitVec.eq_of_toNat_eq
    rw [BitVec.toNat_setWidth, toNat_and_mask hmask, hwide, hindexValue,
      Nat.mod_eq_of_lt s.index.isLt]
  simp only [readStatic, haddress, hsizeEq, hindexEq]

/-! ### Words of control -/

namespace IpcCommand

/-- The counts and the entries that a message has room for. -/
structure Fits (cmd : IpcCommand) (sizeofRaw : ℕ) : Prop where
  buffers : ∀ i < cmd.numBuffers, (cmd.buffers i).Fits
  numBuffers : cmd.numBuffers ≤ ipcMaxBuffers
  statics : ∀ i < cmd.numStaticIn, (cmd.statics i).Fits
  numStatics : cmd.numStaticIn + cmd.numStaticOut ≤ ipcMaxBuffers
  numHandles : cmd.numHandles ≤ ipcMaxObjects
  rawWords : cmd.rawWords sizeofRaw < 2 ^ 9

end IpcCommand

variable {cmd : IpcCommand} {sizeofRaw : ℕ}

theorem toNat_ctrl0 (h : cmd.Fits sizeofRaw) :
    cmd.ctrl0.toNat = 4 + 2 ^ 16 * cmd.numStaticIn + 2 ^ 20 * cmd.numSend +
      2 ^ 24 * cmd.numRecv + 2 ^ 28 * cmd.numExch := by
  have hbuffers : cmd.numSend + cmd.numRecv + cmd.numExch ≤ 8 := h.numBuffers
  have hstatics : cmd.numStaticIn + cmd.numStaticOut ≤ 8 := h.numStatics
  have hin : (BitVec.ofNat 64 cmd.numStaticIn).toNat = _ := toNat_ofNat_of_lt (by omega)
  have hsend : (BitVec.ofNat 64 cmd.numSend).toNat = _ := toNat_ofNat_of_lt (by omega)
  have hrecv : (BitVec.ofNat 64 cmd.numRecv).toNat = _ := toNat_ofNat_of_lt (by omega)
  have hexch : (BitVec.ofNat 64 cmd.numExch).toNat = _ := toNat_ofNat_of_lt (by omega)
  rw [IpcCommand.ctrl0]
  generalize BitVec.ofNat 64 cmd.numStaticIn = x at *
  generalize BitVec.ofNat 64 cmd.numSend = a at *
  generalize BitVec.ofNat 64 cmd.numRecv = b at *
  generalize BitVec.ofNat 64 cmd.numExch = w at *
  have hfirst : (4 ||| x <<< 16).toNat = 4 + 2 ^ 16 * x.toNat :=
    toNat_or_shiftLeft (by decide) (by omega)
  have hsecond : (4 ||| x <<< 16 ||| a <<< 20).toNat = _ + 2 ^ 20 * a.toNat :=
    toNat_or_shiftLeft (by omega) (by omega)
  have hthird : (4 ||| x <<< 16 ||| a <<< 20 ||| b <<< 24).toNat = _ + 2 ^ 24 * b.toNat :=
    toNat_or_shiftLeft (by omega) (by omega)
  have hfourth : (4 ||| x <<< 16 ||| a <<< 20 ||| b <<< 24 ||| w <<< 28).toNat =
      _ + 2 ^ 28 * w.toNat :=
    toNat_or_shiftLeft (by omega) (by omega)
  rw [toNat_setWidth_of_lt (by omega)]
  omega

theorem ctrl0_parts {word type x a b w : ℕ} (htype : type < 2 ^ 16) (hx : x < 16) (ha : a < 16)
    (hb : b < 16) (hw : w < 16)
    (h : word = type + 2 ^ 16 * x + 2 ^ 20 * a + 2 ^ 24 * b + 2 ^ 28 * w) :
    word % 2 ^ 16 = type ∧ word / 2 ^ 16 % 2 ^ 4 = x ∧ word / 2 ^ 20 % 2 ^ 4 = a ∧
      word / 2 ^ 24 % 2 ^ 4 = b ∧ word / 2 ^ 28 % 2 ^ 4 = w := by
  omega

theorem toNat_ctrl2 (h : cmd.Fits sizeofRaw) :
    cmd.ctrl2.toNat = cmd.sendPid.toNat + 2 * cmd.numHandlesCopy + 2 ^ 5 * cmd.numHandlesMove := by
  have hhandles : cmd.numHandlesCopy + cmd.numHandlesMove ≤ 8 := h.numHandles
  have hpid : cmd.sendPid.toNat ≤ 1 := Bool.toNat_le _
  have hpidValue : (BitVec.ofNat 64 cmd.sendPid.toNat).toNat = _ := toNat_ofNat_of_lt (by omega)
  have hcopy : (BitVec.ofNat 64 cmd.numHandlesCopy).toNat = _ := toNat_ofNat_of_lt (by omega)
  have hmove : (BitVec.ofNat 64 cmd.numHandlesMove).toNat = _ := toNat_ofNat_of_lt (by omega)
  rw [IpcCommand.ctrl2]
  generalize BitVec.ofNat 64 cmd.sendPid.toNat = p at *
  generalize BitVec.ofNat 64 cmd.numHandlesCopy = c at *
  generalize BitVec.ofNat 64 cmd.numHandlesMove = m at *
  have hfirst : (p ||| c <<< 1).toNat = p.toNat + 2 ^ 1 * c.toNat :=
    toNat_or_shiftLeft (by omega) (by omega)
  have hsecond : (p ||| c <<< 1 ||| m <<< 5).toNat = _ + 2 ^ 5 * m.toNat :=
    toNat_or_shiftLeft (by omega) (by omega)
  rw [toNat_setWidth_of_lt (by omega)]
  omega

/-- The field of the statics to receive counts two more than there are. -/
def staticsOutField (numStaticOut : ℕ) : ℕ := if 0 < numStaticOut then numStaticOut + 2 else 0

theorem staticsOutField_le (h : cmd.Fits sizeofRaw) : staticsOutField cmd.numStaticOut ≤ 10 := by
  have hstatics : cmd.numStaticIn + cmd.numStaticOut ≤ 8 := h.numStatics
  rw [staticsOutField]
  split_ifs <;> omega

theorem toNat_ctrl1 (h : cmd.Fits sizeofRaw) :
    (cmd.ctrl1 sizeofRaw).toNat = cmd.rawWords sizeofRaw +
      2 ^ 10 * staticsOutField cmd.numStaticOut + 2 ^ 31 * cmd.special.toNat := by
  have hraw := h.rawWords
  have hfield : (if 0 < cmd.numStaticOut then
      (BitVec.ofNat 64 (cmd.numStaticOut + 2) <<< 10).setWidth 32 else (0 : Word)) =
        BitVec.ofNat 32 (staticsOutField cmd.numStaticOut) <<< 10 := by
    rw [staticsOutField]
    split_ifs
    · rw [BitVec.setWidth_shiftLeft_of_le (by decide), BitVec.setWidth_ofNat_of_le (by decide)]
    · rfl
  have hspecial : (if cmd.special then (0x80000000 : Word) else 0) =
      BitVec.ofNat 32 cmd.special.toNat <<< 31 := by
    cases cmd.special <;> rfl
  have hle := staticsOutField_le h
  have hspecialLe : cmd.special.toNat ≤ 1 := Bool.toNat_le _
  have hrawValue : (BitVec.ofNat 32 (cmd.rawWords sizeofRaw)).toNat = _ :=
    toNat_ofNat_of_lt (by omega)
  have hfieldValue : (BitVec.ofNat 32 (staticsOutField cmd.numStaticOut)).toNat = _ :=
    toNat_ofNat_of_lt (by omega)
  have hspecialValue : (BitVec.ofNat 32 cmd.special.toNat).toNat = _ := toNat_ofNat_of_lt (by omega)
  rw [IpcCommand.ctrl1, hfield, hspecial, or_swap_right,
    BitVec.or_comm (BitVec.ofNat 32 (staticsOutField cmd.numStaticOut) <<< 10)]
  generalize BitVec.ofNat 32 (cmd.rawWords sizeofRaw) = r at *
  generalize BitVec.ofNat 32 (staticsOutField cmd.numStaticOut) = c at *
  generalize BitVec.ofNat 32 cmd.special.toNat = z at *
  have hfirst : (r ||| c <<< 10).toNat = r.toNat + 2 ^ 10 * c.toNat :=
    toNat_or_shiftLeft (by omega) (by omega)
  have hsecond : (r ||| c <<< 10 ||| z <<< 31).toNat = _ + 2 ^ 31 * z.toNat :=
    toNat_or_shiftLeft (by omega) (by omega)
  omega

theorem readStaticsOut_ctrl1 (h : cmd.Fits sizeofRaw) :
    readStaticsOut (cmd.ctrl1 sizeofRaw) = cmd.numStaticOut := by
  have hraw := h.rawWords
  have hvalue := toNat_ctrl1 h
  have hmask : (15 : Word).toNat = 2 ^ 4 - 1 := rfl
  have hfield : (cmd.ctrl1 sizeofRaw >>> 10 &&& 15).toNat = staticsOutField cmd.numStaticOut := by
    have hle := staticsOutField_le h
    rw [toNat_ushiftRight_and hmask]
    omega
  -- one is taken off twice from a field of 3 or more
  simp only [readStaticsOut, hfield, staticsOutField]
  split_ifs <;> omega

theorem special_iff (h : cmd.Fits sizeofRaw) :
    cmd.ctrl1 sizeofRaw &&& 0x80000000 ≠ 0 ↔ cmd.special = true := by
  have hraw := h.rawWords
  have hvalue := toNat_ctrl1 h
  have hbit : (0x80000000 : Word) = BitVec.twoPow 32 31 := rfl
  have hle := staticsOutField_le h
  have hmsb : (cmd.ctrl1 sizeofRaw).getLsbD 31 = cmd.special := by
    have hlast := BitVec.msb_eq_decide (cmd.ctrl1 sizeofRaw)
    rw [BitVec.msb_eq_getLsbD_last] at hlast
    rw [hlast, hvalue]
    cases cmd.special
    · exact decide_eq_false (by rw [Bool.toNat_false]; omega)
    · exact decide_eq_true (by rw [Bool.toNat_true]; omega)
  rw [hbit, BitVec.and_twoPow, hmsb]
  cases cmd.special <;> decide

/-! ### What the command holds -/

namespace IpcCommand

/-- The buffers up to their count. -/
def heldBuffers (cmd : IpcCommand) : List (Buffer × BufferDirection) :=
  (List.range cmd.numBuffers).map fun i => (cmd.buffers i, direction cmd.numSend cmd.numRecv i)

def heldStatics (cmd : IpcCommand) : List Static := (List.range cmd.numStaticIn).map cmd.statics

def heldHandles (cmd : IpcCommand) : List (Word × Bool) :=
  (List.range cmd.numHandles).map fun i => (cmd.handles i, decide (i < cmd.numHandlesCopy))

/-- The identifier that has been filled in. -/
def heldPid (cmd : IpcCommand) (old : ℕ → Word) : Option (BitVec 64) :=
  if cmd.sendPid then some ((old 3).setWidth 64 ||| (old 4).setWidth 64 <<< 32) else none

end IpcCommand

theorem readSpecial_of_written (h : Written old tls 2 cmd.specialWords)
    (hspecial : cmd.special = true) (hfits : cmd.Fits sizeofRaw) :
    readSpecial tls = (cmd.heldPid old, cmd.heldHandles, 2 + cmd.specialWords.length) := by
  rw [IpcCommand.specialWords, if_pos hspecial] at h ⊢
  rw [written_append, written_append, written_cons] at h
  obtain ⟨⟨⟨hctrl2, -⟩, hpid⟩, hhandles⟩ := h
  have hmax : cmd.numHandlesCopy + cmd.numHandlesMove ≤ 8 := hfits.numHandles
  have hvalue := (congrArg BitVec.toNat hctrl2).trans (toNat_ctrl2 hfits)
  have hmask : (1 : Word).toNat = 2 ^ 1 - 1 := rfl
  have hmask4 : (15 : Word).toNat = 2 ^ 4 - 1 := rfl
  have hpidLe : cmd.sendPid.toNat ≤ 1 := Bool.toNat_le _
  have hcopy : (tls 2 >>> 1 &&& 15).toNat = cmd.numHandlesCopy := by
    rw [toNat_ushiftRight_and hmask4]
    omega
  have hmove : (tls 2 >>> 5 &&& 15).toNat = cmd.numHandlesMove := by
    rw [toNat_ushiftRight_and hmask4]
    omega
  have hlow : (tls 2 &&& 1).toNat = cmd.sendPid.toNat := by
    rw [toNat_and_mask hmask]
    omega
  have hpidBit : tls 2 &&& 1 ≠ 0 ↔ cmd.sendPid = true := by
    rw [ne_eq, ← BitVec.toNat_inj, hlow]
    cases cmd.sendPid <;> decide
  have hpidRead : (if cmd.sendPid = true then
      some ((tls 3).setWidth 64 ||| (tls 4).setWidth 64 <<< 32) else none) = cmd.heldPid old := by
    rw [IpcCommand.heldPid]
    split_ifs with hsend
    · rw [if_pos hsend, written_cons, written_cons] at hpid
      obtain ⟨hfirst, hsecond, -⟩ := hpid
      have hfirst : tls 3 = old 3 := hfirst
      have hsecond : tls 4 = old 4 := hsecond
      rw [hfirst, hsecond]
    · rfl
  have hlength : 2 + ([put cmd.ctrl2] ++ if cmd.sendPid = true then [id, id] else []).length =
      if cmd.sendPid = true then 5 else 3 := by
    split_ifs <;> rfl
  have hread := Written.map_put hhandles
  rw [hlength, List.length_map, List.length_range] at hread
  have hhandlesRead :
      (List.range (min (cmd.numHandlesCopy + cmd.numHandlesMove) ipcMaxObjects)).map (fun i =>
        (tls ((if cmd.sendPid = true then 5 else 3) + i), decide (i < cmd.numHandlesCopy))) =
          cmd.heldHandles := by
    rw [Nat.min_eq_left (show _ ≤ ipcMaxObjects from hmax)]
    apply List.map_congr_left
    intro i hi
    rw [List.map_inj_left.mp hread i hi]
  rw [List.length_append, ← Nat.add_assoc, hlength, List.length_map, List.length_map,
    List.length_range]
  simp only [readSpecial, hpidBit, hcopy, hmove, hpidRead, hhandlesRead]
  rfl

theorem length_flatMap_static (l : List Static) :
    (l.flatMap staticSendDescriptor).length = l.length * 2 := by
  have hstatic : ∀ s, (staticSendDescriptor s).length = 2 := fun _ => rfl
  simp only [List.length_flatMap, hstatic, List.map_const', List.sum_replicate_nat]

theorem length_flatMap_buffer (l : List Buffer) :
    (l.flatMap bufferDescriptor).length = l.length * 3 := by
  have hbuffer : ∀ b, (bufferDescriptor b).length = 3 := fun _ => rfl
  simp only [List.length_flatMap, hbuffer, List.map_const', List.sum_replicate_nat]

theorem length_header (cmd : IpcCommand) (sizeofRaw : ℕ) : (cmd.header sizeofRaw).length =
    2 + cmd.specialWords.length + cmd.numStaticIn * 2 + cmd.numBuffers * 3 := by
  rw [IpcCommand.header, List.length_append, List.length_append, List.length_append,
    length_flatMap_static, length_flatMap_buffer, List.length_map, List.length_map,
    List.length_range, List.length_range]
  rfl

/-- The parts of the message in their places. -/
theorem written_header (h : Written old tls 0 (cmd.header sizeofRaw)) :
    tls 0 = cmd.ctrl0 ∧ tls 1 = cmd.ctrl1 sizeofRaw ∧ Written old tls 2 cmd.specialWords ∧
      Written old tls (2 + cmd.specialWords.length)
        (((List.range cmd.numStaticIn).map cmd.statics).flatMap staticSendDescriptor) ∧
      Written old tls (2 + cmd.specialWords.length + cmd.numStaticIn * 2)
        (((List.range cmd.numBuffers).map cmd.buffers).flatMap bufferDescriptor) := by
  rw [IpcCommand.header, written_append, written_append, written_append, written_cons,
    written_cons] at h
  obtain ⟨⟨⟨⟨hctrl0, hctrl1, -⟩, hspecial⟩, hstatics⟩, hbuffers⟩ := h
  rw [Nat.zero_add, List.length_append] at hstatics
  rw [Nat.zero_add, List.length_append, List.length_append, length_flatMap_static, List.length_map,
    List.length_range] at hbuffers
  exact ⟨hctrl0, hctrl1, hspecial, hstatics, hbuffers⟩

theorem heldStatics_of_written (h : Written old tls buf
      (((List.range cmd.numStaticIn).map cmd.statics).flatMap staticSendDescriptor))
    (hfits : cmd.Fits sizeofRaw) :
    (List.range cmd.numStaticIn).map (fun i => readStatic tls (buf + 2 * i)) = cmd.heldStatics := by
  have hread : ∀ s ∈ (List.range cmd.numStaticIn).map cmd.statics, ∀ b,
      Written old tls b (staticSendDescriptor s) → readStatic tls b = id s := by
    intro s hs b hb
    obtain ⟨i, hi, rfl⟩ := List.mem_map.mp hs
    exact readStatic_of_written hb (hfits.statics i (List.mem_range.mp hi))
  have hlist := Written.flatMap (n := 2) (fun _ => rfl) hread h
  rw [List.length_map, List.length_range, List.map_id] at hlist
  exact hlist

theorem heldBuffers_of_written (h : Written old tls buf
      (((List.range cmd.numBuffers).map cmd.buffers).flatMap bufferDescriptor))
    (hfits : cmd.Fits sizeofRaw) :
    (List.range cmd.numBuffers).map (fun i =>
      (readBuffer tls (buf + 3 * i), direction cmd.numSend cmd.numRecv i)) = cmd.heldBuffers := by
  have hread : ∀ x ∈ (List.range cmd.numBuffers).map cmd.buffers, ∀ b,
      Written old tls b (bufferDescriptor x) → readBuffer tls b = id x := by
    intro x hx b hb
    obtain ⟨i, hi, rfl⟩ := List.mem_map.mp hx
    exact readBuffer_of_written hb (hfits.buffers i (List.mem_range.mp hi))
  have hlist := Written.flatMap (n := 3) (fun _ => rfl) hread h
  rw [List.length_map, List.length_range, List.map_id] at hlist
  apply List.map_congr_left
  intro i hi
  rw [List.map_inj_left.mp hlist i hi]

/-- Without a third word of control there are no identifier and no handles. -/
theorem held_of_not_special (h : cmd.special = false) :
    cmd.heldPid old = none ∧ cmd.heldHandles = [] ∧ cmd.specialWords.length = 0 := by
  have hspecial := h
  rw [IpcCommand.special, Bool.or_eq_false_iff, Bool.or_eq_false_iff, decide_eq_false_iff_not,
    decide_eq_false_iff_not] at h
  obtain ⟨⟨hpid, hcopy⟩, hmove⟩ := h
  have hzero : cmd.numHandles = 0 := by
    rw [IpcCommand.numHandles]
    omega
  refine ⟨?_, ?_, ?_⟩
  · rw [IpcCommand.heldPid, hpid, if_neg Bool.false_ne_true]
  · rw [IpcCommand.heldHandles, hzero, List.range_zero, List.map_nil]
  · rw [IpcCommand.specialWords, hspecial, if_neg Bool.false_ne_true, List.length_nil]

theorem readSpecial_or_none (h : Written old tls 2 cmd.specialWords)
    (hctrl1 : tls 1 = cmd.ctrl1 sizeofRaw) (hfits : cmd.Fits sizeofRaw) :
    (if tls 1 &&& 0x80000000 ≠ 0 then readSpecial tls else (none, [], 2)) =
      (cmd.heldPid old, cmd.heldHandles, 2 + cmd.specialWords.length) := by
  rw [hctrl1]
  split_ifs with hbit
  · exact readSpecial_of_written h ((special_iff hfits).mp hbit) hfits
  · have hspecial : cmd.special = false := Bool.eq_false_iff.mpr (mt (special_iff hfits).mpr hbit)
    obtain ⟨hpid, hhandles, hlength⟩ := @held_of_not_special old cmd hspecial
    rw [hpid, hhandles, hlength]

/-- A message is read as what the command holds. -/
theorem ipcParse_of_written (h : Written old tls 0 (cmd.header sizeofRaw))
    (hfits : cmd.Fits sizeofRaw) :
    ipcParse tls =
      { commandType := 4
        pid := cmd.heldPid old
        handles := cmd.heldHandles
        numStaticsOut := cmd.numStaticOut
        statics := cmd.heldStatics
        buffers := cmd.heldBuffers
        raw := (cmd.ipcPrepareHeader sizeofRaw).2
        rawWithoutPadding := (cmd.header sizeofRaw).length
        rawSize := cmd.rawWords sizeofRaw * 4 } := by
  obtain ⟨hctrl0, hctrl1, hspecial, hstatics, hbuffers⟩ := written_header h
  have hspecialRead := readSpecial_or_none hspecial hctrl1 hfits
  have hvalue := (congrArg BitVec.toNat hctrl0).trans (toNat_ctrl0 hfits)
  have hbufferMax : cmd.numSend + cmd.numRecv + cmd.numExch ≤ 8 := hfits.numBuffers
  have hstaticMax : cmd.numStaticIn + cmd.numStaticOut ≤ 8 := hfits.numStatics
  have hmask : (15 : Word).toNat = 2 ^ 4 - 1 := rfl
  have hmaskType : (0xFFFF : Word).toNat = 2 ^ 16 - 1 := rfl
  have hmaskRaw : (0x1FF : Word).toNat = 2 ^ 9 - 1 := rfl
  obtain ⟨htype, hin, hsend, hrecv, hexch⟩ := ctrl0_parts (by decide) (by omega) (by omega)
    (by omega) (by omega) hvalue
  rw [← toNat_and_mask hmaskType] at htype
  rw [← toNat_ushiftRight_and hmask] at hin hsend hrecv hexch
  have hrawSize : (tls 1 &&& 0x1FF).toNat = cmd.rawWords sizeofRaw := by
    have hraw := hfits.rawWords
    have hctrl1Value := toNat_ctrl1 hfits
    rw [hctrl1, toNat_and_mask hmaskRaw]
    omega
  have hstaticsOut : readStaticsOut (tls 1) = cmd.numStaticOut := by
    rw [hctrl1, readStaticsOut_ctrl1 hfits]
  have hminBuffers : min (cmd.numSend + cmd.numRecv + cmd.numExch) ipcMaxBuffers = cmd.numBuffers :=
    Nat.min_eq_left hbufferMax
  have hminStatics : min cmd.numStaticIn ipcMaxBuffers = cmd.numStaticIn :=
    Nat.min_eq_left ((Nat.le_add_right _ _).trans hstaticMax)
  have hlength := length_header cmd sizeofRaw
  have hend : 2 + cmd.specialWords.length + cmd.numStaticIn * 2 +
      (cmd.numSend + cmd.numRecv + cmd.numExch) * 3 = (cmd.header sizeofRaw).length :=
    hlength.symm
  have hraw : (4 * (cmd.header sizeofRaw).length + 15) / 16 * 4 =
      (cmd.ipcPrepareHeader sizeofRaw).2 := by
    rw [IpcCommand.ipcPrepareHeader]
    omega
  simp only [ipcParse, hspecialRead, htype, hin, hsend, hrecv, hexch, hrawSize, hstaticsOut,
    hminBuffers, hminStatics, heldStatics_of_written hstatics hfits,
    heldBuffers_of_written hbuffers hfits, hend, hraw]

end Sp2Module.Ipc
