import Sp2Module.MovzMovk

/-!
# Addresses in two words

The sign of an encoded page number is that of the address and not that of the distance, so an
address is formed where it is not below `pc` or is itself negative. The decoder drops the sign where
the rest of the page number is zero.
-/

namespace Sp2Module.ArmUtils

open A64

/-- The words are an `adrp` and an `add`, and executed at `pc` they leave `value` in a register. -/
def FormsAddress (opcode : Bytes) (pc : UInt32) (xd : UInt8) (value : Int64) : Prop :=
  ∃ first second, opcode = uintBytes first ++ uintBytes second ∧
    (∃ imm, A64.decode first = some (.adrp (reg xd) imm)) ∧
    (∃ imm, A64.decode second = some (.add (reg xd) (reg xd) imm 0)) ∧
    ∀ s : State, s.pc = pc.toUInt64 →
      ∃ s', run s [first, second] = some s' ∧ s'.readSp (reg xd) = value.toUInt64

variable {first second pc : UInt32} {xd : UInt8} {value : Int64} {opcode : Bytes}

theorem imm21_eq (word : UInt32) : imm21 word = immPages word - field word 23 1 * 2 ^ 20 := by
  have hpages := immPages_lt word
  have hsign := field_lt word 23 1
  have hhigh : field word 5 19 = field word 5 18 + field word 23 1 * 2 ^ 18 := by
    unfold field
    omega
  have hsum : ((field word 5 19 * 4 + field word 29 2 : ℕ) : ℤ) =
      (immPages word : ℤ) + field word 23 1 * 2 ^ 20 := by
    rw [hhigh, immPages]
    push_cast
    ring
  unfold imm21
  rw [hsum, Int.bmod_eq_iff (Nat.two_pow_pos 21)]
  generalize immPages word = pages at *
  generalize field word 23 1 = sign at *
  refine ⟨?_, ?_, ?_⟩ <;> omega

/-- What the two encoders make of an address. -/
theorem armv8EncodeAdrpAdd_eq_ok (hxd : xd.toNat < 32)
    (h : armv8EncodeAdrpAdd pc xd value = .ok opcode) :
    ∃ first second, opcode = uintBytes first ++ uintBytes second ∧
      (field first 31 1 = 1 ∧ field first 24 5 = 0b10000 ∧ field first 0 5 = xd.toNat ∧
        field first 23 1 = (if value < 0 then 1 else 0) ∧
          (immPages first : ℤ) = pageDelta value pc.toUInt64.toInt64 % 2 ^ 20) ∧
      (field second 23 9 = 0b100100010 ∧ field second 24 8 = 0b10010001 ∧ field second 22 2 = 0 ∧
        field second 22 1 = 0 ∧ (field second 10 12 : ℤ) = value.toInt % 4096 ∧
          field second 5 5 = xd.toNat ∧ field second 0 5 = xd.toNat) := by
  obtain ⟨adrp, hadrp, h⟩ := except_bind_eq_ok.mp h
  obtain ⟨add, hadd, h⟩ := except_bind_eq_ok.mp h
  have hrange : LabelInRange value := by
    by_contra hno
    by_cases hmin : value = Int64.minValue
    · rw [hmin, armv8EncodeAdrp_minValue] at hadrp
      exact absurd hadrp (by simp)
    · obtain ⟨message, herror⟩ := armv8EncodeAdrp_of_not_inRange hno hmin
      rw [herror] at hadrp
      exact absurd hadrp (by simp)
  obtain ⟨first, hfirst, hfields⟩ :=
    armv8EncodeAdrp_of_inRange pc.toUInt64.toInt64 hrange hxd
  have hlow : ((value &&& 0xFFF).toUInt64.toUInt16.toNat : ℤ) = value.toInt % 4096 := by
    have hmask : (value &&& 0xFFF).toUInt64.toNat = value.toUInt64.toNat % 2 ^ 12 :=
      Nat.and_two_pow_sub_one_eq_mod value.toUInt64.toNat 12
    have hnat := toNat_toUInt64 value
    rw [UInt64.toNat_toUInt16, hmask]
    omega
  have hlow_lt : (value &&& 0xFFF).toUInt64.toUInt16.toNat < 2 ^ 12 := by omega
  obtain ⟨second, hsecond, hword⟩ : ∃ word,
      armv8EncodeAddImm xd xd (value &&& 0xFFF).toUInt64.toUInt16 0 = .ok (uintBytes word) ∧
        word.toNat = 0b100100010 * 2 ^ 23 + 0 * 2 ^ 22 +
          (value &&& 0xFFF).toUInt64.toUInt16.toNat * 2 ^ 10 + xd.toNat * 2 ^ 5 + xd.toNat :=
    armv8EncodeAddImm_of_valid ⟨.inl rfl, hxd, hxd⟩ hlow_lt
  obtain ⟨hid, hcode, hshift, hshift', himm, hrn, hrd⟩ :=
    fields_of_addImmWord (by decide) hlow_lt hxd hxd hword
  rw [hfirst, Except.ok.injEq] at hadrp
  rw [hsecond, Except.ok.injEq] at hadd
  refine ⟨first, second, ?_, hfields, hid, hcode, hshift, hshift', ?_, hrn, hrd⟩
  · rw [hadrp, hadd]
    exact (Except.ok.inj h).symm
  · rw [himm, hlow]

/-! ### What the two words compute -/

theorem toNat_ofInt (x : ℤ) : ((UInt64.ofInt x).toNat : ℤ) = x % 18446744073709551616 := by
  have hpos : 0 ≤ x % 18446744073709551616 := Int.emod_nonneg _ (by decide)
  have hlt : x % 18446744073709551616 < 18446744073709551616 := Int.emod_lt_of_pos _ (by decide)
  have hdef : UInt64.ofInt x = UInt64.ofNat (x % 18446744073709551616).toNat := by
    simp only [UInt64.ofInt, Int.reducePow]
  rw [hdef, UInt64.toNat_ofNat', Nat.mod_eq_of_lt (by omega)]
  omega

/-- The address the words form at `pc`. -/
def formed (first second pc : UInt32) : UInt64 :=
  (pc.toUInt64 &&& ~~~0xFFF) + UInt64.ofInt (imm21 first * 4096) +
    UInt64.ofNat (imm12 second).val

theorem decode_add_reg (hcode' : field second 24 8 = 0b10010001) (hshift : field second 22 2 = 0)
    (hrn' : field second 5 5 = xd.toNat) (hrd' : field second 0 5 = xd.toNat) :
    A64.decode second = some (.add (reg xd) (reg xd) (imm12 second) 0) := by
  have hlt := field_lt second 0 5
  have hrn : rn second = reg xd := Fin.ext (by rw [val_reg (by omega)]; exact hrn')
  have hzero : (⟨field second 22 2, by omega⟩ : Fin 2) = 0 := Fin.ext hshift
  rw [decode_add hcode' (by omega), hzero, hrn, rd_eq_reg hrd']

theorem run_adrp_add {s : State} (hop : field first 31 1 = 1) (hcode : field first 24 5 = 0b10000)
    (hrd : field first 0 5 = xd.toNat) (hcode' : field second 24 8 = 0b10010001)
    (hshift : field second 22 2 = 0) (hrn' : field second 5 5 = xd.toNat)
    (hrd' : field second 0 5 = xd.toNat) (hpc : s.pc = pc.toUInt64) :
    ∃ s', run s [first, second] = some s' ∧ s'.readSp (reg xd) =
      if xd.toNat < 31 then formed first second pc
      else s.sp + UInt64.ofNat (imm12 second).val := by
  have hlt := field_lt first 0 5
  have hadd := decode_add_reg hcode' hshift hrn' hrd'
  refine ⟨_, by rw [run_cons (decode_adrp hop hcode), execute, Option.bind_some, run_cons hadd,
    execute, Option.bind_some, run], ?_⟩
  rw [State.readSp_next, State.readSp_writeSp, State.readSp_next, rd_eq_reg hrd, hpc]
  have hone : (imm12 second).val * 4096 ^ (0 : Fin 2).val = (imm12 second).val := Nat.mul_one _
  rw [hone]
  split_ifs with hreg
  · rw [State.readSp_write (by rwa [val_reg (by omega)]), formed]
  · have hnot : ¬ (reg xd).val < 31 := by rwa [val_reg (by omega)]
    rw [State.write, dif_neg hnot, State.readSp, dif_neg hnot]

theorem toNat_formed :
    ((formed first second pc).toNat : ℤ) =
      ((pc.toNat / 4096 : ℕ) * 4096 + imm21 first * 4096 + field second 10 12) %
        18446744073709551616 := by
  have hpc_lt := pc.toNat_lt
  have hlow_lt := field_lt second 10 12
  have hpage : (pc.toUInt64 &&& ~~~0xFFF).toNat = pc.toNat / 2 ^ 12 * 2 ^ 12 := by
    have hmask : (~~~0xFFF : UInt64).toNat = 2 ^ 64 - 2 ^ 12 := rfl
    rw [UInt64.toNat_and, hmask, UInt32.toNat_toUInt64, and_high_mask (by omega) (by decide)]
  have himm : (UInt64.ofNat (imm12 second).val).toNat = field second 10 12 := by
    change (UInt64.ofNat (field second 10 12)).toNat = _
    rw [UInt64.toNat_ofNat_of_lt' (by change _ < 2 ^ 64; omega)]
  rw [formed, UInt64.toNat_add, UInt64.toNat_add, hpage, himm, Int.natCast_emod, Int.natCast_add,
    Int.natCast_emod, Int.natCast_add, toNat_ofInt]
  change (((_ : ℤ) + _ % 18446744073709551616) % 18446744073709551616 + _) %
    18446744073709551616 = _
  rw [Int.add_emod_emod, Int.emod_add_emod]
  rfl

/-- The words form the address exactly if they hold the distance in pages. -/
theorem formed_eq_iff (himm : (field second 10 12 : ℤ) = value.toInt % 4096)
    (hrange : -2 ^ 20 ≤ pageDelta value pc.toUInt64.toInt64 ∧
      pageDelta value pc.toUInt64.toInt64 < 2 ^ 20) :
    formed first second pc = value.toUInt64 ↔
      imm21 first = pageDelta value pc.toUInt64.toInt64 := by
  have hnat : (value.toUInt64.toNat : ℤ) = value.toInt % 18446744073709551616 :=
    toNat_toUInt64 value
  have hbound : -2 ^ 20 ≤ imm21 first ∧ imm21 first < 2 ^ 20 := by
    have hpages_lt := immPages_lt first
    have hsign := field_lt first 23 1
    rw [imm21_eq]
    omega
  have hvalue : value.toInt = value.toInt / 4096 * 4096 + field second 10 12 := by omega
  rw [pageDelta, toInt_toInt64] at hrange ⊢
  rw [← UInt64.toNat_inj, ← Int.natCast_inj, toNat_formed, hnat,
    Int.emod_eq_emod_iff_emod_sub_eq_zero]
  have hdiff : ((pc.toNat / 4096 : ℕ) * 4096 + imm21 first * 4096 + field second 10 12 : ℤ) -
      value.toInt =
        ((pc.toNat / 4096 : ℕ) + imm21 first - value.toInt / 4096) * 4096 := by omega
  rw [hdiff]
  constructor
  · intro h
    -- a distance below the modulus
    have hdvd := Int.dvd_of_emod_eq_zero h
    have hzero := Int.eq_zero_of_abs_lt_dvd hdvd (by rw [abs_lt]; omega)
    omega
  · intro h
    have hzero : ((pc.toNat / 4096 : ℕ) + imm21 first - value.toInt / 4096 : ℤ) = 0 := by omega
    rw [hzero]
    rfl

/-! ### What the two words are decoded to -/

theorem toInt_ofNat_add {n : ℕ} (hn : n < 4096) {data : Int64}
    (hdata : -2 ^ 33 ≤ data.toInt ∧ data.toInt < 2 ^ 33) :
    (Int64.ofNat n + data).toInt = n + data.toInt := by
  rw [Int64.toInt_add, Int64.toInt_ofNat_of_lt (by omega), Int.bmod_eq_of_le (by omega) (by omega)]

theorem decodeAdrpAdd_eq_ok_iff (hop : field first 31 1 = 1) (hcode : field first 24 5 = 0b10000)
    (hrd : field first 0 5 = xd.toNat) (hid' : field second 23 9 = 0b100100010)
    (hshift' : field second 22 1 = 0) (himm : (field second 10 12 : ℤ) = value.toInt % 4096)
    (hrn' : field second 5 5 = xd.toNat) (hrd' : field second 0 5 = xd.toNat) :
    armv8DecodeAdrpAdd (uintBytes first ++ uintBytes second) pc xd = .ok value ↔
      pagesRead first = pageDelta value pc.toUInt64.toInt64 := by
  have hpc_lt := pc.toNat_lt
  have hlow_lt := field_lt second 10 12
  have hread := pagesRead_bounds first
  set base := (pagesRead first + (pc.toNat / 4096 : ℕ)) * 4096 with hbase
  have hdata : (Int64.ofInt base).toInt = base :=
    Int64.toInt_ofInt_of_le (by omega) (by omega)
  have hadrp : armv8DecodeAdrp (uintBytes first) xd pc = .ok (Int64.ofInt base) :=
    armv8DecodeAdrp_eq_ok.mpr ⟨hop, hcode, hrd, hdata⟩
  have hsum : (Int64.ofNat (field second 10 12) + Int64.ofInt base).toInt = _ :=
    toInt_ofNat_add hlow_lt (by omega)
  have hdecode : armv8DecodeAdrpAdd (uintBytes first ++ uintBytes second) pc xd = .ok value ↔
      value = Int64.ofNat (field second 10 12) + Int64.ofInt base := by
    rw [armv8DecodeAdrpAdd, take_words, take_drop_words, hadrp]
    change armv8DecodeAddImm (uintBytes second) xd xd (Int64.ofInt base) = .ok value ↔ _
    rw [armv8DecodeAddImm_eq_ok, hshift', pow_zero, Nat.mul_one]
    tauto
  rw [hdecode, ← Int64.toInt_inj, hsum, hdata, pageDelta, toInt_toInt64]
  omega

theorem uintBytes_append_inj {first' second' : UInt32}
    (h : uintBytes first ++ uintBytes second = uintBytes first' ++ uintBytes second') :
    first = first' ∧ second = second' := by
  have hsplit := List.append_inj h (by rw [length_uintBytes, length_uintBytes])
  exact ⟨uintBytes_inj hsplit.1, uintBytes_inj hsplit.2⟩

theorem formsAddress_iff (hop : field first 31 1 = 1) (hcode : field first 24 5 = 0b10000)
    (hrd : field first 0 5 = xd.toNat) (hcode' : field second 24 8 = 0b10010001)
    (hshift : field second 22 2 = 0) (hrn' : field second 5 5 = xd.toNat)
    (hrd' : field second 0 5 = xd.toNat) :
    FormsAddress (uintBytes first ++ uintBytes second) pc xd value ↔
      formed first second pc = value.toUInt64 ∧ xd.toNat ≠ 31 := by
  have hlt := field_lt first 0 5
  have hrun (s : State) (hpc : s.pc = pc.toUInt64) :=
    run_adrp_add hop hcode hrd hcode' hshift hrn' hrd' hpc
  constructor
  · rintro ⟨first', second', hopcode, -, -, hforms⟩
    obtain ⟨rfl, rfl⟩ := uintBytes_append_inj hopcode
    have hvalue (s : State) (hpc : s.pc = pc.toUInt64) :
        (if xd.toNat < 31 then formed first second pc
          else s.sp + UInt64.ofNat (imm12 second).val) = value.toUInt64 := by
      obtain ⟨s', hs', hread⟩ := hrun s hpc
      obtain ⟨s'', hs'', hread'⟩ := hforms s hpc
      rw [hs', Option.some.injEq] at hs''
      rw [← hread, ← hread', hs'']
    have hzero := hvalue ⟨fun _ => 0, 0, pc.toUInt64⟩ rfl
    by_cases hreg : xd.toNat < 31
    · rw [if_pos hreg] at hzero
      exact ⟨hzero, by omega⟩
    · -- the stack pointer is another one from another state
      have hone := hvalue ⟨fun _ => 0, 1, pc.toUInt64⟩ rfl
      rw [if_neg hreg] at hzero hone
      have hsame : (0 : UInt64) = 1 := (UInt64.add_left_inj _).mp (hzero.trans hone.symm)
      exact absurd hsame (by decide)
  · rintro ⟨hformed, hreg⟩
    refine ⟨first, second, rfl, ⟨imm21 first, ?_⟩, ⟨imm12 second, ?_⟩, fun s hpc => ?_⟩
    · rw [decode_adrp hop hcode, rd_eq_reg hrd]
    · exact decode_add_reg hcode' hshift hrn' hrd'
    · obtain ⟨s', hs', hread⟩ := hrun s hpc
      rw [if_pos (by omega), hformed] at hread
      exact ⟨s', hs', hread⟩

/-- An address is encoded and decoded as it should be if it is not below the page of `pc`, or is
negative and not as far away as can be, and the register is not the last. -/
theorem adrpAdd_iff (hxd : xd.toNat < 32)
    (hrange : -2 ^ 20 ≤ pageDelta value pc.toUInt64.toInt64 ∧
      pageDelta value pc.toUInt64.toInt64 < 2 ^ 20)
    (h : armv8EncodeAdrpAdd pc xd value = .ok opcode) :
    armv8DecodeAdrpAdd opcode pc xd = .ok value ∧ FormsAddress opcode pc xd value ↔
      (0 ≤ pageDelta value pc.toUInt64.toInt64 ∨
        value < 0 ∧ pageDelta value pc.toUInt64.toInt64 ≠ -2 ^ 20) ∧ xd.toNat ≠ 31 := by
  obtain ⟨first, second, rfl, ⟨hop, hcode, hrd, hsign, hpages⟩,
    ⟨hid', hcode', hshift, hshift', himm, hrn', hrd'⟩⟩ := armv8EncodeAdrpAdd_eq_ok hxd h
  rw [decodeAdrpAdd_eq_ok_iff hop hcode hrd hid' hshift' himm hrn' hrd',
    formsAddress_iff hop hcode hrd hcode' hshift hrn' hrd', formed_eq_iff himm hrange, imm21_eq,
    pagesRead, hsign]
  have hneg : value < 0 ↔ value.toInt < 0 := Int64.lt_iff_toInt_lt
  have hpages_lt := immPages_lt first
  have hdelta : pageDelta value pc.toUInt64.toInt64 =
      value.toInt / 4096 - (pc.toNat / 4096 : ℕ) := by
    rw [pageDelta, toInt_toInt64]
    rfl
  by_cases hvalue : value < 0
  · have hbelow := hneg.mp hvalue
    simp only [hvalue, if_true, true_and]
    split_ifs <;> omega
  · have habove := mt hneg.mpr hvalue
    simp only [hvalue, if_false, false_and, or_false]
    simp only [zero_ne_one, false_and, if_false]
    omega

theorem adrpAdd_above :
    armv8DecodeAdrpAdd (uintBytes 0xD0000000 ++ uintBytes 0x91115800) 0x1000 0 = .ok 0x3456 ∧
      FormsAddress (uintBytes 0xD0000000 ++ uintBytes 0x91115800) 0x1000 0 0x3456 :=
  (adrpAdd_iff (by decide) (by decide +kernel) (by decide +kernel)).mpr (by decide +kernel)

/-- An address two pages below `pc` is decoded four gigabytes above itself. -/
theorem not_adrpAdd_below :
    pageDelta 0x1000 (0x3000 : UInt32).toUInt64.toInt64 = -2 ∧
      armv8EncodeAdrpAdd 0x3000 0 0x1000 = .ok (uintBytes 0xD07FFFE0 ++ uintBytes 0x91000000) ∧
        armv8DecodeAdrpAdd (uintBytes 0xD07FFFE0 ++ uintBytes 0x91000000) 0x3000 0 ≠ .ok 0x1000 ∧
          A64.decode 0xD07FFFE0 = some (.adrp 0 0xFFFFE) := by
  refine ⟨?_, ?_, ?_, ?_⟩ <;> decide +kernel

end Sp2Module.ArmUtils
