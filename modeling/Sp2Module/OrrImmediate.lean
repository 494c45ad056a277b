import Sp2Module.ArmEncodings

/-!
# The masks of orr

The search for the highest set bit looks at its own index in place of the number, so the element is
taken to have 32 bits whatever the field says, and the decoder of `orr` drops the highest bit of the
field. The masks are right where that bit is clear.
-/

namespace Sp2Module.ArmUtils

open A64

/-- An `orr` of a 32-bit mask and the zero register. -/
def OrrFromZero (word : UInt32) (wd : UInt8) : Prop :=
  field word 22 10 = 0b0011001000 ∧ field word 5 5 = 31 ∧ field word 0 5 = wd.toNat

instance (word : UInt32) (wd : UInt8) : Decidable (OrrFromZero word wd) :=
  inferInstanceAs (Decidable (_ ∧ _))

/-- Both decoders return the immediate of the architecture, one of them over 64 bits, and refuse a
reserved one. -/
structure DecodesMask (word : UInt32) (wd : UInt8) : Prop where
  orr {imm : BitVec 64} (h : A64.decodeBitMasks 64 (field word 10 6) (field word 16 6) = some imm) :
    armv8DecodeOrr (uintBytes word) wd wzr = .ok (UInt64.ofBitVec imm)
  movz {imm : BitVec 32}
      (h : A64.decodeBitMasks 32 (field word 10 6) (field word 16 6) = some imm) :
    armv8DecodeMovz (uintBytes word) wd = .ok (UInt32.ofBitVec imm)
  reserved (h : Reserved (field word 10 6)) :
    (∃ message, armv8DecodeOrr (uintBytes word) wd wzr = .error (armv8Exception message)) ∧
      ∃ message, armv8DecodeMovz (uintBytes word) wd = .error (armv8Exception message)

/-- The index of the highest bit of `x` that is set, -1 for zero. -/
def highestBit (x : UInt32) : Int32 := if x = 0 then -1 else Int32.ofNat (Nat.log2 x.toNat)

variable {word : UInt32} {wd : UInt8} {imms : ℕ}

theorem highestSetBit_ne (x : UInt32) : highestSetBit x ≠ highestBit x := by
  have hlog : ∀ n < 32, (37 : Int32) ≠ Int32.ofNat n := by decide
  rw [highestSetBit_eq, highestBit]
  split_ifs with hx
  · decide
  · refine hlog _ ((Nat.log2_lt ?_).mpr x.toNat_lt)
    intro hzero
    exact hx (UInt32.toNat_inj.mp hzero)

/-! ### The size of the element -/

theorem elementLength_of_lt (h : imms < 32) : elementLength imms = 5 := by
  have hne : 63 - imms ≠ 0 := by omega
  have hle : 5 ≤ Nat.log2 (63 - imms) := (Nat.le_log2 hne).mpr (by omega)
  have hlt : Nat.log2 (63 - imms) < 6 := (Nat.log2_lt hne).mpr (by omega)
  unfold elementLength
  omega

theorem elementLength_le_four (h : 32 ≤ imms) (hlt : imms < 63) : elementLength imms ≤ 4 := by
  have hlog : Nat.log2 (63 - imms) < 5 := (Nat.log2_lt (by omega)).mpr (by omega)
  unfold elementLength
  omega

/-- The mask of an element of 32 bits does not repeat after 16. -/
theorem bitMask_ne {m len s r s' r' : ℕ} (hm : 32 ∣ m) (hpos : 48 ≤ m) (hlen : len ≤ 4)
    (hs : s < 31) (hs' : s' < 2 ^ len) : bitMask m 5 s r ≠ bitMask m len s' r' := by
  intro heq
  have hdvd : 2 ^ len ∣ 16 := Nat.pow_dvd_pow 2 hlen
  have hdvd_m : 2 ^ len ∣ m := (hdvd.trans (by decide)).trans hm
  have hbits {i : ℕ} (hi : i < m) : (i + r) % 2 ^ 5 ≤ s ↔ (i + r') % 2 ^ len ≤ s' := by
    rw [← decide_eq_decide, ← getLsbD_bitMask hm hi r (by omega), heq,
      getLsbD_bitMask hdvd_m hi r' hs']
  have hrepeat (i : ℕ) : (i + 16 + r') % 2 ^ len = (i + r') % 2 ^ len := by
    obtain ⟨k, hk⟩ := hdvd
    rw [show i + 16 + r' = i + r' + 2 ^ len * k by omega, Nat.add_mul_mod_self_left]
  have hsame {i : ℕ} (hi : i < 32) : (i + r) % 2 ^ 5 ≤ s ↔ (i + 16 + r) % 2 ^ 5 ≤ s := by
    rw [hbits (by omega), hbits (by omega), hrepeat]
  -- the first bit of the run is repeated, and the bit before it as well
  have hfirst := hsame (Nat.mod_lt (32 - r % 32) (by decide))
  have hlast := hsame (Nat.mod_lt (63 - r % 32) (by decide))
  omega

/-! ### Which masks are right -/

theorem orr_eq_error (hfull : field word 10 6 % 32 = 31) :
    ∃ message, armv8DecodeOrr (uintBytes word) wd wzr = .error (armv8Exception message) := by
  cases horr : armv8DecodeOrr (uintBytes word) wd wzr with
  | ok imm => exact absurd hfull (armv8DecodeOrr_eq_ok.mp horr).2.2.2.1
  | error x =>
    obtain ⟨message, rfl⟩ := armv8DecodeOrr_eq_error horr
    exact ⟨message, rfl⟩

theorem movz_eq_error (h : OrrFromZero word wd) (hfull : field word 10 6 % 32 = 31) :
    ∃ message, armv8DecodeMovz (uintBytes word) wd = .error (armv8Exception message) := by
  cases hmovz : armv8DecodeMovz (uintBytes word) wd with
  | ok imm =>
    obtain ⟨-, ⟨-, -, himms, -⟩ | ⟨hid, -, -⟩⟩ := armv8DecodeMovz_eq_ok.mp hmovz
    · exact absurd hfull himms
    · have hid' := h.1
      unfold field at hid hid'
      omega
  | error x =>
    obtain ⟨message, rfl⟩ := armv8DecodeMovz_eq_error hmovz
    exact ⟨message, rfl⟩

theorem orr_eq_ok (h : OrrFromZero word wd) (hfull : field word 10 6 % 32 ≠ 31) :
    armv8DecodeOrr (uintBytes word) wd wzr =
      .ok (UInt64.ofBitVec (bitMask 64 5 (field word 10 6 % 32) (field word 16 6 % 32))) :=
  armv8DecodeOrr_eq_ok.mpr ⟨h.1, h.2.1, h.2.2, hfull, rfl⟩

theorem movz_eq_ok (h : OrrFromZero word wd) (hfull : field word 10 6 % 32 ≠ 31) :
    armv8DecodeMovz (uintBytes word) wd =
      .ok (UInt32.ofBitVec (bitMask 32 5 (field word 10 6 % 32) (field word 16 6 % 32))) :=
  armv8DecodeMovz_eq_ok.mpr ⟨h.2.2, .inl ⟨h.1, h.2.1, hfull, rfl⟩⟩

/-- An element of 32 bits, whose run must not fill it. -/
theorem decodeBitMasks_of_lt (m immr : ℕ) (h : imms < 32) :
    A64.decodeBitMasks m imms immr =
      if imms % 32 = 31 then none else some (bitMask m 5 (imms % 32) (immr % 32)) := by
  have hreserved : Reserved imms ↔ imms % 32 = 31 := by
    rw [Reserved, elementLength_of_lt h]
    omega
  rw [A64.decodeBitMasks, elementLength_of_lt h]
  exact if_congr hreserved rfl rfl

theorem decodesMask_of_lt (h : OrrFromZero word wd)
    (himms : field word 10 6 < 32 ∨ field word 10 6 = 63) : DecodesMask word wd := by
  obtain himms | himms := himms
  · refine ⟨fun {imm} himm => ?_, fun {imm} himm => ?_, fun hreserved => ?_⟩
    · rw [decodeBitMasks_of_lt _ _ himms] at himm
      split_ifs at himm with hfull
      rw [orr_eq_ok h hfull, Option.some.inj himm]
    · rw [decodeBitMasks_of_lt _ _ himms] at himm
      split_ifs at himm with hfull
      rw [movz_eq_ok h hfull, Option.some.inj himm]
    · have hfull : field word 10 6 % 32 = 31 := by
        rw [Reserved, elementLength_of_lt himms] at hreserved
        omega
      exact ⟨orr_eq_error hfull, movz_eq_error h hfull⟩
  · have hreserved : Reserved (field word 10 6) := .inl (by omega)
    refine ⟨fun {imm} himm => ?_, fun {imm} himm => ?_, fun _ => ?_⟩
    · rw [A64.decodeBitMasks, if_pos hreserved] at himm
      exact absurd himm (by simp)
    · rw [A64.decodeBitMasks, if_pos hreserved] at himm
      exact absurd himm (by simp)
    · exact ⟨orr_eq_error (by omega), movz_eq_error h (by omega)⟩

theorem lt_of_decodesMask (h : OrrFromZero word wd) (hmask : DecodesMask word wd) :
    field word 10 6 < 32 ∨ field word 10 6 = 63 := by
  by_contra hbit
  have hlt := field_lt word 10 6
  have hfull : field word 10 6 % 32 ≠ 31 := by omega
  have horr := orr_eq_ok h hfull
  by_cases hreserved : Reserved (field word 10 6)
  · obtain ⟨⟨message, herror⟩, -⟩ := hmask.reserved hreserved
    simp [horr] at herror
  · have hlen : elementLength (field word 10 6) ≤ 4 := elementLength_le_four (by omega) (by omega)
    have hmask := hmask.orr (by rw [A64.decodeBitMasks, if_neg hreserved])
    rw [horr, Except.ok.injEq, ← UInt64.toBitVec_inj] at hmask
    exact bitMask_ne (by decide) (by decide) hlen (by omega)
      (Nat.mod_lt _ (Nat.two_pow_pos _)) hmask

/-- The masks are those of the architecture where the element has 32 bits or the field is all ones;
the search is right for no number. -/
theorem decodesMask_iff (h : OrrFromZero word wd) (x : UInt32) :
    (DecodesMask word wd ↔ field word 10 6 < 32 ∨ field word 10 6 = 63) ∧
      highestSetBit x ≠ highestBit x :=
  ⟨⟨lt_of_decodesMask h, decodesMask_of_lt h⟩, highestSetBit_ne x⟩

theorem decodesMask_one : OrrFromZero 0x320003E0 0 ∧ DecodesMask 0x320003E0 0 :=
  ⟨by decide, (decodesMask_iff (by decide) 1).1.mpr (by decide)⟩

/-- `orr w0, wzr, #0x10001` is read as a 1, and the highest set bit of 1 is not found. -/
theorem not_decodesMask_halfwords :
    A64.decode 0x320083E0 = some (.orr 0 31 0x10001) ∧
      armv8DecodeMovz (uintBytes 0x320083E0) 0 = .ok 1 ∧
        ¬ DecodesMask 0x320083E0 0 ∧ highestSetBit 1 = 37 := by
  have himm : A64.decodeBitMasks 32 (field 0x320083E0 10 6) (field 0x320083E0 16 6) =
      some 0x10001 := by decide +kernel
  have hmovz : armv8DecodeMovz (uintBytes 0x320083E0) 0 = .ok 1 := by decide +kernel
  refine ⟨by decide +kernel, hmovz, fun h => ?_, rfl⟩
  have hok := h.movz himm
  rw [hmovz] at hok
  exact absurd hok (by decide)

end Sp2Module.ArmUtils
