import Sp2Module.OrrImmediate
import Sp2Module.ArmWords

/-!
# Constants in two words

A decoded pair is the first value or-ed with the immediate of the second word, while a `movk`
replaces a halfword. The two agree where the first value has no bits in that halfword but those of
the immediate, and is itself the value of the instruction outside it.
-/

namespace Sp2Module.ArmUtils

open A64

def reg (r : UInt8) : Reg := Fin.ofNat 32 r.toNat

/-- From every state the words are executed, and they leave `value` in a 32-bit register. -/
def Computes (words : List UInt32) (wd : UInt8) (value : UInt32) : Prop :=
  ∀ s : State, ∃ s', run s words = some s' ∧ s'.readW (reg wd) = value

/-- What an instruction leaves in a 32-bit register. -/
def Leaves (i : Instruction) (wd : UInt8) (b : UInt32) : Prop :=
  ∀ s : State, ∃ s', execute s i = some s' ∧ s'.readW (reg wd) = b

/-- Where the run of a mask begins, seen from the halfword that a `movk` leaves. -/
def runStart (first second : UInt32) : ℕ :=
  (16 * (1 - field second 21 2) + field first 16 6) % 32

/-- When a pair that is accepted is decoded to what it computes. -/
def PairAgrees (first second : UInt32) : Prop :=
  if field first 0 5 = 31 then
    -- the zero register stays zero
    field first 23 9 = 0b010100101 ∧ field first 5 16 = 0 ∧ field second 5 16 = 0
  else if field first 23 9 = 0b010100101 then
    field first 21 2 ≠ field second 21 2 ∨ imm16 first ||| imm16 second = imm16 second
  else if field first 10 6 < 32 then
    ∀ j < 32, j / 16 = field second 21 2 → (j + field first 16 6) % 32 ≤ field first 10 6 →
      (imm16 second).toBitVec.getLsbD (j % 16)
  else
    -- the element has 16 bits, and the run lies in the halfword that is left
    field first 10 6 < 47 ∧
      (runStart first second = 0 ∨ 16 + field first 10 6 % 16 < runStart first second)

instance (first second : UInt32) : Decidable (PairAgrees first second) := by
  unfold PairAgrees
  infer_instance

variable {first second value a b v : UInt32} {wd : UInt8} {i : Instruction} {words : List UInt32}
  {imm : UInt16} {hw : Fin 2}

theorem rd_eq_reg {word : UInt32} (h : field word 0 5 = wd.toNat) : rd word = reg wd := by
  have hlt := field_lt word 0 5
  refine Fin.ext ?_
  change field word 0 5 = wd.toNat % 32
  omega

theorem val_reg (h : wd.toNat < 32) : (reg wd).val = wd.toNat := Nat.mod_eq_of_lt h

theorem not_lt_of_last (hreg : wd.toNat = 31) : ¬ (reg wd).val < 31 := by
  rw [val_reg (by omega), hreg]
  decide

/-! ### Execution -/

theorem Computes.iff_eq (h : Computes words wd v) : Computes words wd value ↔ value = v := by
  constructor
  · intro hvalue
    obtain ⟨s, hs, hv⟩ := h ⟨fun _ => 0, 0, 0⟩
    obtain ⟨s', hs', hv'⟩ := hvalue ⟨fun _ => 0, 0, 0⟩
    rw [hs, Option.some.injEq] at hs'
    rw [← hv, ← hv', hs']
  · rintro rfl
    exact h

/-- A `movk` after an instruction replaces a halfword of what that left. -/
theorem Leaves.computes_movk (hi : Leaves i wd b) (hfirst : A64.decode first = some i)
    (hid : field second 23 9 = 0b011100101) (hhw : field second 21 2 < 2)
    (hwd : field second 0 5 = wd.toNat) (hreg : wd.toNat < 31) :
    Computes [first, second] wd (setHalf b (imm16 second) ⟨_, hhw⟩) := by
  intro s
  have hlt : (reg wd).val < 31 := by rwa [val_reg (by omega)]
  obtain ⟨s₁, hs₁, hb⟩ := hi s
  refine ⟨(s₁.write (reg wd) (setHalf b (imm16 second) ⟨_, hhw⟩).toUInt64).next, ?_, ?_⟩
  · rw [run_cons hfirst, hs₁, Option.bind_some, run_cons (decode_movk hid hhw), execute,
      rd_eq_reg hwd, hb]
    rfl
  · rw [State.readW_next, State.readW_write hlt]

/-- The zero register holds zero. -/
theorem Leaves.computes_zero (hi : Leaves i wd b) (hfirst : A64.decode first = some i)
    (hid : field second 23 9 = 0b011100101) (hhw : field second 21 2 < 2) (hreg : wd.toNat = 31) :
    Computes [first, second] wd 0 := by
  intro s
  have hnot := not_lt_of_last hreg
  obtain ⟨s₁, hs₁, -⟩ := hi s
  refine ⟨(s₁.write (rd second) (setHalf (s₁.readW (rd second)) (imm16 second)
    ⟨_, hhw⟩).toUInt64).next, ?_, State.readW_of_not_lt hnot⟩
  rw [run_cons hfirst, hs₁, Option.bind_some, run_cons (decode_movk hid hhw)]
  rfl

theorem not_computes_of_none (hfirst : A64.decode first = none) :
    ¬ Computes [first, second] wd value := by
  intro h
  obtain ⟨s', hs', -⟩ := h ⟨fun _ => 0, 0, 0⟩
  simp [run, hfirst] at hs'

theorem leaves_movz (hreg : wd.toNat < 31) :
    Leaves (.movz (reg wd) imm hw) wd (imm.toUInt32 <<< UInt32.ofNat (16 * hw.val)) := by
  intro s
  refine ⟨_, rfl, ?_⟩
  rw [State.readW_next, State.readW_write (by rwa [val_reg (by omega)])]

theorem leaves_orr {mask : BitVec 32} (hreg : wd.toNat < 31) :
    Leaves (.orr (reg wd) 31 mask) wd (UInt32.ofBitVec mask) := by
  intro s
  refine ⟨_, rfl, ?_⟩
  rw [State.readW_next, State.readW_writeSp (by rwa [val_reg (by omega)]),
    State.readW_of_not_lt (by decide), UInt32.zero_or]

/-! ### Decoding -/

theorem toNat_shiftLeft_imm16 {word : UInt32} (hhw : field word 21 2 < 2) :
    ((imm16 word).toUInt32 <<< UInt32.ofNat (16 * field word 21 2)).toNat =
      field word 5 16 * 2 ^ (16 * field word 21 2) := by
  have himm : (imm16 word).toUInt32.toNat = field word 5 16 := by
    rw [UInt16.toNat_toUInt32, imm16]
    exact UInt16.toNat_ofNat_of_lt' (field_lt word 5 16)
  have hlo : (UInt32.ofNat (16 * field word 21 2)).toNat = 16 * field word 21 2 :=
    UInt32.toNat_ofNat_of_lt' (by change _ < 2 ^ 32; omega)
  have hfield : field word 5 16 < 2 ^ 16 := field_lt word 5 16
  rw [toNat_shiftLeft_half (by rwa [himm]) hhw hlo, himm]

theorem armv8DecodeMovzMovk_eq_ok :
    armv8DecodeMovzMovk (uintBytes first ++ uintBytes second) wd = .ok value ↔
      ∃ v, armv8DecodeMovz (uintBytes first) wd = .ok v ∧ field second 23 9 = 0b011100101 ∧
        field second 21 2 < 2 ∧ field second 0 5 = wd.toNat ∧
          value = v ||| (imm16 second).toUInt32 <<< UInt32.ofNat (16 * field second 21 2) := by
  rw [armv8DecodeMovzMovk, take_words, take_drop_words]
  constructor
  · intro h
    obtain ⟨v, hv, h⟩ := except_bind_eq_ok.mp h
    obtain ⟨w, hw, h⟩ := except_bind_eq_ok.mp h
    obtain ⟨hid, hhw, hwd, hnat⟩ := armv8DecodeMovk_eq_ok.mp hw
    refine ⟨v, hv, hid, hhw, hwd, ?_⟩
    rw [← Except.ok.inj h, ← UInt32.toNat_inj.mp (hnat.trans (toNat_shiftLeft_imm16 hhw).symm)]
  · rintro ⟨v, hv, hid, hhw, hwd, rfl⟩
    have hw := armv8DecodeMovk_eq_ok.mpr ⟨hid, hhw, hwd, toNat_shiftLeft_imm16 hhw⟩
    refine except_bind_eq_ok.mpr ⟨v, hv, except_bind_eq_ok.mpr ⟨_, hw, rfl⟩⟩

/-! ### Values -/

/-- Or-ing an immediate in is replacing the halfword. -/
theorem or_eq_setHalf_iff :
    a ||| imm.toUInt32 <<< UInt32.ofNat (16 * hw.val) = setHalf b imm hw ↔
      ∀ j < 32, if j / 16 = hw.val then a.toBitVec.getLsbD j → imm.toBitVec.getLsbD (j % 16)
        else a.toBitVec.getLsbD j = b.toBitVec.getLsbD j := by
  have hbit {j : ℕ} (hj : j < 32) :
      (a ||| imm.toUInt32 <<< UInt32.ofNat (16 * hw.val)).toBitVec.getLsbD j =
        (setHalf b imm hw).toBitVec.getLsbD j ↔
          if j / 16 = hw.val then a.toBitVec.getLsbD j → imm.toBitVec.getLsbD (j % 16)
            else a.toBitVec.getLsbD j = b.toBitVec.getLsbD j := by
    rw [getLsbD_setHalf b imm hw hj, UInt32.toBitVec_or, BitVec.getLsbD_or,
      getLsbD_shiftLeft_half imm hw hj]
    split_ifs with hhalf
    · rw [decide_eq_true hhalf, Bool.true_and]
      cases a.toBitVec.getLsbD j <;> simp
    · rw [decide_eq_false hhalf, Bool.false_and, Bool.or_false]
  constructor
  · intro h j hj
    rw [← hbit hj, h]
  · intro h
    rw [← UInt32.toBitVec_inj]
    apply BitVec.eq_of_getLsbD_eq
    intro j hj
    exact (hbit hj).mpr (h j hj)

theorem or_eq_right_iff {imm' : UInt16} :
    imm ||| imm' = imm' ↔
      ∀ k < 16, imm.toBitVec.getLsbD k → imm'.toBitVec.getLsbD k := by
  constructor
  · intro h k _ hk
    rw [← h, UInt16.toBitVec_or, BitVec.getLsbD_or, hk, Bool.true_or]
  · intro h
    rw [← UInt16.toBitVec_inj]
    apply BitVec.eq_of_getLsbD_eq
    intro k hk
    rw [UInt16.toBitVec_or, BitVec.getLsbD_or]
    have hk := h k hk
    cases hbit : imm.toBitVec.getLsbD k
    · rw [Bool.false_or]
    · rw [hk hbit, Bool.true_or]

/-- An immediate over another value of a halfword. -/
theorem shiftLeft_or_eq_setHalf_iff (imm' imm : UInt16) (hw' hw : Fin 2) :
    imm'.toUInt32 <<< UInt32.ofNat (16 * hw'.val) ||| imm.toUInt32 <<< UInt32.ofNat (16 * hw.val) =
        setHalf (imm'.toUInt32 <<< UInt32.ofNat (16 * hw'.val)) imm hw ↔
      hw'.val ≠ hw.val ∨ imm' ||| imm = imm := by
  rw [or_eq_setHalf_iff, or_eq_right_iff]
  constructor
  · intro h
    by_cases hhw : hw'.val = hw.val
    · right
      intro k hk hbit
      have hlt := hw.isLt
      have hj := h (16 * hw.val + k) (by omega)
      rw [if_pos (by omega), getLsbD_shiftLeft_half _ _ (by omega),
        show (16 * hw.val + k) % 16 = k by omega] at hj
      refine hj ?_
      rw [hbit, Bool.and_true, decide_eq_true_iff]
      omega
    · exact .inl hhw
  · intro h j hj
    rw [getLsbD_shiftLeft_half _ _ hj]
    split_ifs with hhalf
    · intro hbit
      rw [Bool.and_eq_true, decide_eq_true_iff] at hbit
      obtain h | h := h
      · omega
      · exact h _ (Nat.mod_lt _ (by decide)) hbit.2
    · rfl

/-! ### Masks of smaller elements -/

theorem window_iff {t s : ℕ} (hs : s < 15) :
    (∀ k < 16, (t + k) % 32 ≤ s ↔ (t + k) % 16 ≤ s) ↔ t % 32 = 0 ∨ 16 + s < t % 32 := by
  constructor
  · intro h
    by_contra hno
    -- either the window holds the start of the second run or it begins within that
    have hfirst := h 0 (by decide)
    by_cases hlow : t % 32 ≤ 16
    · by_cases hsixteen : t % 32 = 16
      · omega
      · have hround := h (16 - t % 32) (by omega)
        omega
    · omega
  · intro h k hk
    omega

/-- Both a one and a zero come again within the halfword, and the run of ones does not. -/
theorem not_window {t s s' e : ℕ} (he : e ∣ 8) (hs : 16 ≤ s) (hlt : s < 31) (hs' : s' + 1 < e) :
    ¬ ∀ k < 16, ((t + k) % 32 ≤ s ↔ (t + k) % e ≤ s') := by
  intro h
  have hones {x : ℕ} (hx : x % 8 = 0) : x % e ≤ s' := by
    have hmod : x % e = 0 := Nat.mod_eq_zero_of_dvd (he.trans (Nat.dvd_of_mod_eq_zero hx))
    omega
  have hzeros {x : ℕ} (hx : x % 8 = 7) : ¬ x % e ≤ s' := by
    intro hle
    have hdvd : e ∣ x + 1 := he.trans (Nat.dvd_of_mod_eq_zero (by omega))
    have hmod : (x % e + 1) % e = 0 := by rw [Nat.mod_add_mod, Nat.mod_eq_zero_of_dvd hdvd]
    rw [Nat.mod_eq_of_lt (by omega)] at hmod
    omega
  have hone := h ((8 - t % 8) % 8) (by omega)
  have hone' := h ((8 - t % 8) % 8 + 8) (by omega)
  have hzero := h (7 - t % 8) (by omega)
  have hzero' := h (7 - t % 8 + 8) (by omega)
  have h₁ := hone.mpr (hones (by omega))
  have h₂ := hone'.mpr (hones (by omega))
  have h₃ := mt hzero.mp (hzeros (by omega))
  have h₄ := mt hzero'.mp (hzeros (by omega))
  omega

theorem elementLength_eq_four {imms : ℕ} (h : 32 ≤ imms) (hlt : imms < 48) :
    elementLength imms = 4 := by
  have hne : 63 - imms ≠ 0 := by omega
  have hle : 4 ≤ Nat.log2 (63 - imms) := (Nat.le_log2 hne).mpr (by omega)
  have hle' := elementLength_le_four h (by omega)
  unfold elementLength at hle' ⊢
  omega

theorem elementLength_le_three {imms : ℕ} (h : 48 ≤ imms) (hlt : imms < 63) :
    elementLength imms ≤ 3 := by
  have hlog : Nat.log2 (63 - imms) < 4 := (Nat.log2_lt (by omega)).mpr (by omega)
  unfold elementLength
  omega

theorem getLsbD_mask {imms immr len j : ℕ} (hlen : len ≤ 5) (hj : j < 32) :
    (bitMask 32 len (imms % 2 ^ len) (immr % 2 ^ len)).getLsbD j =
      decide ((j + immr) % 2 ^ len ≤ imms % 2 ^ len) := by
  have hdvd : 2 ^ len ∣ 32 := (Nat.pow_dvd_pow 2 hlen : 2 ^ len ∣ 2 ^ 5)
  rw [getLsbD_bitMask hdvd hj _ (Nat.mod_lt _ (Nat.two_pow_pos _)), Nat.add_mod_mod]

theorem getLsbD_run {imms immr j : ℕ} (hj : j < 32) :
    (bitMask 32 5 (imms % 32) (immr % 32)).getLsbD j = decide ((j + immr) % 32 ≤ imms % 32) :=
  getLsbD_mask le_rfl hj

/-- The run of an element of 32 bits against that of a smaller one, over a halfword from `t` on. -/
theorem window_element_iff {imms t : ℕ} (h : 32 ≤ imms) (hlt : imms < 63)
    (hreserved : ¬ Reserved imms) :
    (∀ k < 16, (t + k) % 32 ≤ imms % 32 ↔
        (t + k) % 2 ^ elementLength imms ≤ imms % 2 ^ elementLength imms) ↔
      imms < 47 ∧ (t % 32 = 0 ∨ 16 + imms % 16 < t % 32) := by
  by_cases hsixteen : imms < 48
  · have hfill : imms % 16 ≠ 15 := by
      intro hfill
      refine hreserved (.inr ?_)
      rw [elementLength_eq_four h hsixteen]
      exact hfill
    have hlow : imms % 32 = imms % 16 := by omega
    have hlt : imms < 47 := by omega
    rw [elementLength_eq_four h hsixteen, hlow, and_iff_right hlt]
    exact window_iff (by omega)
  · have hthree : 2 ^ elementLength imms ∣ 8 :=
      Nat.pow_dvd_pow 2 (elementLength_le_three (by omega) hlt)
    have hmod : imms % 2 ^ elementLength imms < 2 ^ elementLength imms :=
      Nat.mod_lt _ (Nat.two_pow_pos _)
    have hfill : imms % 2 ^ elementLength imms ≠ 2 ^ elementLength imms - 1 :=
      fun hfill => hreserved (.inr hfill)
    exact iff_of_false (not_window hthree (by omega) (by omega) (by omega)) (by omega)

/-- The run the code makes where the element has 32 bits. -/
theorem run_or_eq_setHalf_iff {imms immr : ℕ} (h : imms < 32) (imm : UInt16) (hw : Fin 2) :
    UInt32.ofBitVec (bitMask 32 5 (imms % 32) (immr % 32)) |||
          imm.toUInt32 <<< UInt32.ofNat (16 * hw.val) =
        setHalf (UInt32.ofBitVec (bitMask 32 (elementLength imms) (imms % 2 ^ elementLength imms)
          (immr % 2 ^ elementLength imms))) imm hw ↔
      ∀ j < 32, j / 16 = hw.val → (j + immr) % 32 ≤ imms →
        imm.toBitVec.getLsbD (j % 16) := by
  rw [elementLength_of_lt h, or_eq_setHalf_iff]
  refine forall₂_congr fun j hj => ?_
  split_ifs with hhalf
  · change ((bitMask 32 5 (imms % 32) (immr % 32)).getLsbD j = true → _) ↔ _
    rw [getLsbD_run hj, decide_eq_true_iff, Nat.mod_eq_of_lt h]
    exact (imp_iff_right hhalf).symm
  · exact iff_of_true rfl (fun hhalf' => absurd hhalf' hhalf)

/-- The run the code makes against the mask of an element below 32 bits. -/
theorem bitMask_or_eq_setHalf_iff {imms immr : ℕ} (h : 32 ≤ imms) (hlt : imms < 63)
    (hreserved : ¬ Reserved imms) (imm : UInt16) (hw : Fin 2) :
    UInt32.ofBitVec (bitMask 32 5 (imms % 32) (immr % 32)) |||
          imm.toUInt32 <<< UInt32.ofNat (16 * hw.val) =
        setHalf (UInt32.ofBitVec (bitMask 32 (elementLength imms) (imms % 2 ^ elementLength imms)
          (immr % 2 ^ elementLength imms))) imm hw ↔
      imms < 47 ∧ ((16 * (1 - hw.val) + immr) % 32 = 0 ∨
        16 + imms % 16 < (16 * (1 - hw.val) + immr) % 32) := by
  have hlen : elementLength imms ≤ 5 := (elementLength_le_four h hlt).trans (by decide)
  have hwlt := hw.isLt
  have hbits {j : ℕ} (hj : j < 32) :
      (UInt32.ofBitVec (bitMask 32 5 (imms % 32) (immr % 32))).toBitVec.getLsbD j =
          (UInt32.ofBitVec (bitMask 32 (elementLength imms) (imms % 2 ^ elementLength imms)
            (immr % 2 ^ elementLength imms))).toBitVec.getLsbD j ↔
        ((j + immr) % 32 ≤ imms % 32 ↔
          (j + immr) % 2 ^ elementLength imms ≤ imms % 2 ^ elementLength imms) := by
    change (bitMask 32 5 _ _).getLsbD _ = (bitMask 32 _ _ _).getLsbD _ ↔ _
    rw [getLsbD_run hj, getLsbD_mask hlen hj, decide_eq_decide]
  rw [or_eq_setHalf_iff, ← window_element_iff h hlt hreserved]
  constructor
  · intro hagree k hk
    -- the halfword that is left begins at bit 16 or at bit 0
    have hj := hagree (16 * (1 - hw.val) + k) (by omega)
    rw [if_neg (by omega), hbits (by omega)] at hj
    rwa [show 16 * (1 - hw.val) + immr + k = 16 * (1 - hw.val) + k + immr by omega]
  · intro hwindow j hj
    split_ifs with hhalf
    · intro hbit
      change (bitMask 32 5 _ _).getLsbD _ = true at hbit
      rw [getLsbD_run hj, decide_eq_true_iff] at hbit
      have hstart := (window_element_iff h hlt hreserved).mp hwindow
      omega
    · rw [hbits hj]
      have hk := hwindow (j % 16) (Nat.mod_lt _ (by decide))
      rwa [show 16 * (1 - hw.val) + immr + j % 16 = j + immr by omega] at hk

/-! ### Pairs -/

/-- A pair that begins with a move of a halfword. -/
theorem computes_movz_iff (hwd : field first 0 5 = wd.toNat) (hid : field first 23 9 = 0b010100101)
    (hhw : field first 21 2 < 2) (hid' : field second 23 9 = 0b011100101)
    (hhw' : field second 21 2 < 2) (hwd' : field second 0 5 = wd.toNat) :
    Computes [first, second] wd
        ((imm16 first).toUInt32 <<< UInt32.ofNat (16 * field first 21 2) |||
          (imm16 second).toUInt32 <<< UInt32.ofNat (16 * field second 21 2)) ↔
      PairAgrees first second := by
  have hlt := field_lt first 0 5
  have hdecode := decode_movz hid hhw
  by_cases hreg : wd.toNat = 31
  · have hleaves : Leaves (.movz (rd first) (imm16 first) ⟨_, hhw⟩) wd 0 := by
      intro s
      exact ⟨_, rfl, State.readW_of_not_lt (not_lt_of_last hreg)⟩
    rw [(hleaves.computes_zero hdecode hid' hhw' hreg).iff_eq, PairAgrees, if_pos (hwd.trans hreg),
      ← UInt32.toNat_inj, UInt32.toNat_or, toNat_shiftLeft_imm16 hhw, toNat_shiftLeft_imm16 hhw']
    change _ = 0 ↔ _
    rw [Nat.or_eq_zero_iff]
    have hpos := Nat.two_pow_pos (16 * field first 21 2)
    have hpos' := Nat.two_pow_pos (16 * field second 21 2)
    simp only [Nat.mul_eq_zero, hpos.ne', hpos'.ne', or_false, hid, true_and]
  · have hleaves : Leaves (.movz (reg wd) (imm16 first) ⟨_, hhw⟩) wd _ := leaves_movz (by omega)
    rw [← rd_eq_reg hwd] at hleaves
    rw [(hleaves.computes_movk hdecode hid' hhw' hwd' (by omega)).iff_eq, PairAgrees,
      if_neg (by omega), if_pos hid]
    exact shiftLeft_or_eq_setHalf_iff (imm16 first) (imm16 second) ⟨_, hhw⟩ ⟨_, hhw'⟩

theorem not_reserved_of_lt {imms : ℕ} (h : imms < 47) (hfull : imms % 32 ≠ 31) :
    ¬ Reserved imms := by
  rintro (hsmall | hrun)
  · omega
  · by_cases hlow : imms < 32
    · rw [elementLength_of_lt hlow] at hrun
      omega
    · rw [elementLength_eq_four (by omega) (by omega)] at hrun
      omega

/-- The run the code makes in an element of 32 bits is not empty. -/
theorem run_or_ne_zero {s r : ℕ} (hs : s < 32) (x : UInt32) :
    UInt32.ofBitVec (bitMask 32 5 s r) ||| x ≠ 0 := by
  intro hzero
  have hlt : (32 - r % 32) % 32 < 32 := Nat.mod_lt _ (by decide)
  have hbit : (UInt32.ofBitVec (bitMask 32 5 s r) ||| x).toBitVec.getLsbD ((32 - r % 32) % 32) =
      true := by
    have hfirst : ((32 - r % 32) % 32 + r) % 2 ^ 5 ≤ s := by omega
    have hrun := getLsbD_bitMask (show 2 ^ 5 ∣ 32 by decide) hlt r hs
    rw [decide_eq_true hfirst] at hrun
    rw [UInt32.toBitVec_or, BitVec.getLsbD_or]
    change ((bitMask 32 5 s r).getLsbD _ || _) = true
    rw [hrun, Bool.true_or]
  rw [hzero] at hbit
  exact absurd hbit (by simp)

/-- A pair that begins with a mask. -/
theorem computes_orr_iff (horr : OrrFromZero first wd) (hfull : field first 10 6 % 32 ≠ 31)
    (hid' : field second 23 9 = 0b011100101)
    (hhw' : field second 21 2 < 2) (hwd' : field second 0 5 = wd.toNat) :
    Computes [first, second] wd
        (UInt32.ofBitVec (bitMask 32 5 (field first 10 6 % 32) (field first 16 6 % 32)) |||
          (imm16 second).toUInt32 <<< UInt32.ofNat (16 * field second 21 2)) ↔
      PairAgrees first second := by
  obtain ⟨hid, hrn, hwd⟩ := horr
  have hlt := field_lt first 0 5
  have himms := field_lt first 10 6
  have hmovz : field first 23 9 ≠ 0b010100101 := by
    unfold field at hid ⊢
    omega
  have hrn : rn first = 31 := Fin.ext hrn
  have hdecode := decode_orr hid
  rw [A64.decodeBitMasks, hrn] at hdecode
  by_cases hreserved : Reserved (field first 10 6)
  · rw [if_pos hreserved] at hdecode
    refine iff_of_false (not_computes_of_none hdecode) ?_
    have hhigh : ¬ field first 10 6 < 47 := fun h => not_reserved_of_lt h hfull hreserved
    unfold PairAgrees
    split_ifs with hzero hlow
    · exact fun h => hmovz h.1
    · omega
    · exact fun h => hhigh h.1
  rw [if_neg hreserved, Option.map_some] at hdecode
  by_cases hreg : wd.toNat = 31
  · have hleaves : Leaves (.orr (rd first) 31 (bitMask 32 (elementLength (field first 10 6))
        (field first 10 6 % 2 ^ elementLength (field first 10 6))
        (field first 16 6 % 2 ^ elementLength (field first 10 6)))) wd 0 := by
      intro s
      exact ⟨_, rfl, State.readW_of_not_lt (not_lt_of_last hreg)⟩
    rw [(hleaves.computes_zero hdecode hid' hhw' hreg).iff_eq, PairAgrees, if_pos (hwd.trans hreg)]
    exact iff_of_false (run_or_ne_zero (Nat.mod_lt _ (by decide)) _) (fun h => hmovz h.1)
  · rw [rd_eq_reg hwd] at hdecode
    rw [((leaves_orr (by omega)).computes_movk hdecode hid' hhw' hwd' (by omega)).iff_eq,
      PairAgrees, if_neg (by omega), if_neg hmovz]
    split_ifs with hlow
    · exact run_or_eq_setHalf_iff hlow (imm16 second) ⟨_, hhw'⟩
    · exact bitMask_or_eq_setHalf_iff (by omega) (by omega) hreserved (imm16 second) ⟨_, hhw'⟩

theorem computes_iff_of_decoded
    (h : armv8DecodeMovzMovk (uintBytes first ++ uintBytes second) wd = .ok value) :
    Computes [first, second] wd value ↔ PairAgrees first second := by
  obtain ⟨v, hv, hid', hhw', hwd', rfl⟩ := armv8DecodeMovzMovk_eq_ok.mp h
  obtain ⟨hwd, ⟨hid, hrn, hfull, rfl⟩ | ⟨hid, hhw, hnat⟩⟩ := armv8DecodeMovz_eq_ok.mp hv
  · exact computes_orr_iff ⟨hid, hrn, hwd⟩ hfull hid' hhw' hwd'
  · have hv' := UInt32.toNat_inj.mp (hnat.trans (toNat_shiftLeft_imm16 hhw).symm)
    rw [hv']
    exact computes_movz_iff hwd hid hhw hid' hhw' hwd'

/-- Every constant that is encoded is decoded again. -/
theorem decode_armv8EncodeMovzMovk (value : UInt32) (hwd : wd.toNat < 32) :
    (armv8EncodeMovzMovk value wd >>= fun opcode => armv8DecodeMovzMovk opcode wd) =
      .ok value := by
  have hvalue := value.toNat_lt
  have hupper : ((value >>> 16) &&& 0xFFFF).toUInt16.toNat = value.toNat / 2 ^ 16 := by
    have hmask : ((value >>> 16) &&& 0xFFFF).toNat = field value 16 16 :=
      toNat_and_mask value (by decide) rfl
    rw [UInt32.toNat_toUInt16, hmask, field]
    omega
  have hlower : (value &&& 0xFFFF).toUInt16.toNat = value.toNat % 2 ^ 16 := by
    have hmask : (value &&& 0xFFFF).toNat = field value 0 16 := toNat_and_low value rfl
    rw [UInt32.toNat_toUInt16, hmask, field]
    omega
  set upper := ((value >>> 16) &&& 0xFFFF).toUInt16 with hupperdef
  set lower := (value &&& 0xFFFF).toUInt16 with hlowerdef
  obtain ⟨first, hfirst, hword⟩ : ∃ word, armv8EncodeMovz wd upper 16 = .ok (uintBytes word) ∧
      word.toNat = 0b010100101 * 2 ^ 23 + 1 * 2 ^ 21 + upper.toNat * 2 ^ 5 + wd.toNat :=
    encodeMove_of_valid upper (by decide) (by decide) hwd
  obtain ⟨second, hsecond, hword'⟩ : ∃ word, armv8EncodeMovk wd lower 0 = .ok (uintBytes word) ∧
      word.toNat = 0b011100101 * 2 ^ 23 + 0 * 2 ^ 21 + lower.toNat * 2 ^ 5 + wd.toNat :=
    encodeMove_of_valid lower (by decide) (by decide) hwd
  obtain ⟨hid, hhw, himm, hrd⟩ :=
    fields_of_moveWord (by decide) (by decide) upper.toNat_lt hwd hword
  obtain ⟨hid', hhw', himm', hrd'⟩ :=
    fields_of_moveWord (by decide) (by decide) lower.toNat_lt hwd hword'
  have hencode : armv8EncodeMovzMovk value wd = .ok (uintBytes first ++ uintBytes second) := by
    rw [armv8EncodeMovzMovk]
    simp only [← hupperdef, ← hlowerdef, hfirst, hsecond, bind, Except.bind, pure, Except.pure]
  have hhigh : ((imm16 first).toUInt32 <<< UInt32.ofNat (16 * field first 21 2)).toNat = _ :=
    toNat_shiftLeft_imm16 (by omega)
  have hlow : ((imm16 second).toUInt32 <<< UInt32.ofNat (16 * field second 21 2)).toNat = _ :=
    toNat_shiftLeft_imm16 (by omega)
  rw [hhw, himm] at hhigh
  rw [hhw', himm'] at hlow
  rw [hencode]
  change armv8DecodeMovzMovk (uintBytes first ++ uintBytes second) wd = .ok value
  refine armv8DecodeMovzMovk_eq_ok.mpr ⟨(imm16 first).toUInt32 <<< UInt32.ofNat (16 * 1),
    armv8DecodeMovz_eq_ok.mpr ⟨hrd, .inr ⟨hid, by omega, ?_⟩⟩, hid', by omega, hrd', ?_⟩
  · rw [hhigh, hhw, himm]
  · rw [hhw', ← UInt32.toNat_inj, A64.toNat_or 16 (by omega) (by omega)]
    omega

/-- What an accepted pair is decoded to is what it computes where the two agree, and every constant
that is encoded is decoded again. -/
theorem computes_iff_pairAgrees (value : UInt32) (wd : UInt8) :
    (∀ first second, armv8DecodeMovzMovk (uintBytes first ++ uintBytes second) wd = .ok value →
      (Computes [first, second] wd value ↔ PairAgrees first second)) ∧
      (wd.toNat < 32 → (armv8EncodeMovzMovk value wd >>= fun opcode =>
        armv8DecodeMovzMovk opcode wd) = .ok value) :=
  ⟨fun _ _ => computes_iff_of_decoded, decode_armv8EncodeMovzMovk value⟩

theorem computes_encoded :
    Computes [0x52A24680, 0x728ACF00] 0 0x12345678 ∧
      (armv8EncodeMovzMovk 0x12345678 0 >>= fun opcode => armv8DecodeMovzMovk opcode 0) =
        .ok 0x12345678 :=
  ⟨((computes_iff_pairAgrees 0x12345678 0).1 _ _ (by decide +kernel)).mpr (by decide +kernel),
    (computes_iff_pairAgrees 0x12345678 0).2 (by decide)⟩

/-- `movz w0, #1` and `movk w0, #2` leave a 2 and are decoded to a 3. -/
theorem not_computes_sameHalf :
    armv8DecodeMovzMovk (uintBytes 0x52800020 ++ uintBytes 0x72800040) 0 = .ok 3 ∧
      ¬ Computes [0x52800020, 0x72800040] 0 3 := by
  have h : armv8DecodeMovzMovk (uintBytes 0x52800020 ++ uintBytes 0x72800040) 0 = .ok 3 := by
    decide +kernel
  exact ⟨h, (computes_iff_of_decoded h).not.mpr (by decide +kernel)⟩

end Sp2Module.ArmUtils
