import Sp2Module.ArmFields

/-!
# The words the decoders accept

For each register a decoder accepts exactly the words its encoder returns for operands that fit, and
that of `movz` also the masks of `orr`. The high byte tells the words of the decoders apart, so no
two others accept the same word, and none accepts a branch or a call.
-/

namespace Sp2Module.ArmUtils

open A64

def nopId : UInt32 := 0xD503201F

def armv8EncodeNop : Bytes := uintBytes nopId

def armv8EncodeRet : Bytes := [0xC0, 0x03, 0x5F, 0xD6]

/-- The decoders of one word. -/
inductive Decoder where
  | orr
  | movz
  | movk
  | adrp
  | add
deriving DecidableEq, Repr

/-- The decoder accepts the word for some registers and values. -/
def Accepts (word : UInt32) : Decoder → Prop
  | .orr => ∃ wd wn imm, armv8DecodeOrr (uintBytes word) wd wn = .ok imm
  | .movz => ∃ wd v, armv8DecodeMovz (uintBytes word) wd = .ok v
  | .movk => ∃ wd v, armv8DecodeMovk (uintBytes word) wd = .ok v
  | .adrp => ∃ xd pc target, armv8DecodeAdrp (uintBytes word) xd pc = .ok target
  | .add => ∃ xd xn xnValue v, armv8DecodeAddImm (uintBytes word) xd xn xnValue = .ok v

/-- The high bytes of the words that a decoder accepts. -/
def HighByte (byte : ℕ) : Decoder → Prop
  | .orr => byte = 0x32
  | .movz => byte = 0x32 ∨ byte = 0x52
  | .movk => byte = 0x72
  | .adrp => 128 ≤ byte ∧ byte % 32 = 16
  | .add => byte = 0x91

instance (byte : ℕ) : (d : Decoder) → Decidable (HighByte byte d)
  | .orr => inferInstanceAs (Decidable (byte = 0x32))
  | .movz => inferInstanceAs (Decidable (byte = 0x32 ∨ byte = 0x52))
  | .movk => inferInstanceAs (Decidable (byte = 0x72))
  | .adrp => inferInstanceAs (Decidable (128 ≤ byte ∧ byte % 32 = 16))
  | .add => inferInstanceAs (Decidable (byte = 0x91))

variable {word id : UInt32} {wd xd xn : UInt8} {v : UInt32} {d d' : Decoder}

/-! ### High bytes -/

theorem Accepts.highByte (h : Accepts word d) : HighByte (field word 24 8) d := by
  cases d with
  | orr =>
    obtain ⟨wd, wn, imm, h⟩ := h
    obtain ⟨hid, -⟩ := armv8DecodeOrr_eq_ok.mp h
    unfold HighByte field at *
    omega
  | movz =>
    obtain ⟨wd, v, h⟩ := h
    obtain ⟨-, ⟨hid, -⟩ | ⟨hid, -⟩⟩ := armv8DecodeMovz_eq_ok.mp h
    · left
      unfold field at *
      omega
    · right
      unfold field at *
      omega
  | movk =>
    obtain ⟨wd, v, h⟩ := h
    obtain ⟨hid, -⟩ := armv8DecodeMovk_eq_ok.mp h
    unfold HighByte field at *
    omega
  | adrp =>
    obtain ⟨xd, pc, target, h⟩ := h
    obtain ⟨hop, hcode, -⟩ := armv8DecodeAdrp_eq_ok.mp h
    unfold HighByte field at *
    omega
  | add =>
    obtain ⟨xd, xn, xnValue, v, h⟩ := h
    obtain ⟨hid, -⟩ := armv8DecodeAddImm_eq_ok.mp h
    unfold HighByte field at *
    omega

/-- Only the decoder of `movz` takes the words of another one. -/
theorem Accepts.unique (h : Accepts word d) (h' : Accepts word d') :
    d = d' ∨ d = .orr ∧ d' = .movz ∨ d = .movz ∧ d' = .orr := by
  have hbyte := h.highByte
  have hbyte' := h'.highByte
  unfold HighByte at hbyte hbyte'
  cases d <;> cases d'
  all_goals first
    | exact .inl rfl
    | exact .inr (.inl ⟨rfl, rfl⟩)
    | exact .inr (.inr ⟨rfl, rfl⟩)
    | exact absurd hbyte (by omega)

theorem not_accepts_of_highByte (h : ∀ d, ¬ HighByte (field word 24 8) d) (d : Decoder) :
    ¬ Accepts word d :=
  fun haccepts => h d haccepts.highByte

theorem not_accepts_branch {k : Branch} {label : UInt32}
    (h : encodeBranch (branchId k) label = .ok (uintBytes word)) (d : Decoder) :
    ¬ Accepts word d := by
  by_cases hlabel : Encodable label
  · obtain ⟨word', hword, hnat⟩ := encodeBranch_of_encodable (k := k) hlabel
    rw [hword, Except.ok.injEq] at h
    rw [← uintBytes_inj h]
    have hbound := hlabel.1
    have hop : k.opcode = 5 ∨ k.opcode = 37 := by cases k <;> decide
    refine not_accepts_of_highByte (fun d hbyte => ?_) d
    unfold HighByte field at hbyte
    rcases hop with hop | hop
    all_goals
      rw [hop] at hnat
      cases d
      all_goals
        dsimp only at hbyte
        omega
  · obtain ⟨x, hx⟩ := encodeBranch_of_not_encodable (k := k) hlabel
    rw [hx] at h
    cases h

theorem not_accepts_svc {svc : UInt16} (h : armv8EncodeSvc svc = uintBytes word) (d : Decoder) :
    ¬ Accepts word d := by
  have hword : word = svcId ||| svc.toUInt32 <<< 5 := (uintBytes_inj h).symm
  have hnat := toNat_svcWord svc
  have hlt := svc.toNat_lt
  rw [← hword] at hnat
  refine not_accepts_of_highByte (fun d hbyte => ?_) d
  cases d
  all_goals
    unfold HighByte field at hbyte
    omega

theorem not_accepts_nop (h : armv8EncodeNop = uintBytes word) (d : Decoder) : ¬ Accepts word d := by
  rw [← uintBytes_inj h]
  exact not_accepts_of_highByte (fun d => by cases d <;> decide) d

theorem not_accepts_ret (h : armv8EncodeRet = uintBytes word) (d : Decoder) : ¬ Accepts word d := by
  have hret : armv8EncodeRet = uintBytes 0xD65F03C0 := by decide
  rw [hret] at h
  rw [← uintBytes_inj h]
  exact not_accepts_of_highByte (fun d => by cases d <;> decide) d

/-! ### Operands that fit -/

/-- The encoder returns the word for an immediate and a shift of 32-bit registers, and the value is
the one shifted by the other. -/
def EncodedMove (encoder : UInt8 → UInt16 → Int32 → Except Exception Bytes) (word : UInt32)
    (wd : UInt8) (v : UInt32) : Prop :=
  ∃ imm lsl, (lsl = 0 ∨ lsl = 16) ∧ encoder wd imm lsl = .ok (uintBytes word) ∧
    v = imm.toUInt32 <<< lsl.toUInt32

/-- The encoder returns the word for an immediate of twelve bits, which is added to a value. -/
def EncodedAdd (word : UInt32) (xd xn : UInt8) (xnValue v : Int64) : Prop :=
  ∃ imm lsl, imm.toNat < 4096 ∧ (lsl = 0 ∨ lsl = 12) ∧
    armv8EncodeAddImm xd xn imm lsl = .ok (uintBytes word) ∧
      v = Int64.ofNat (imm.toNat * 2 ^ lsl.toUInt32.toNat) + xnValue

/-- The encoder returns the word for a label and a place. -/
def EncodedAdrp (word : UInt32) (xd : UInt8) : Prop :=
  ∃ label pc, armv8EncodeAdrp xd label pc = .ok (uintBytes word)

theorem word_of_moveFields {code hw imm rd : ℕ} (hcode : field word 23 9 = code)
    (hhw : field word 21 2 = hw) (himm : field word 5 16 = imm) (hrd : field word 0 5 = rd) :
    word.toNat = code * 2 ^ 23 + hw * 2 ^ 21 + imm * 2 ^ 5 + rd := by
  have hlt := word.toNat_lt
  unfold field at *
  omega

theorem encodedMove_iff {encoder : UInt8 → UInt16 → Int32 → Except Exception Bytes}
    (hid : id.toNat < 2 ^ 9)
    (hencoder : ∀ wd imm lsl, encoder wd imm lsl = encodeMove id wd imm lsl) :
    EncodedMove encoder word wd v ↔
      field word 23 9 = id.toNat ∧ field word 21 2 < 2 ∧ field word 0 5 = wd.toNat ∧
        v.toNat = field word 5 16 * 2 ^ (16 * field word 21 2) := by
  have hvalid : ∀ hw : Fin 2, MoveShift (Int32.ofNat (16 * hw.val)) := by decide
  have hshift : ∀ hw : Fin 2,
      Int32.ofNat (16 * hw.val) = 0 ∨ Int32.ofNat (16 * hw.val) = 16 := by decide
  constructor
  · rintro ⟨imm, lsl, hlsl, hword, rfl⟩
    obtain ⟨hw, rfl⟩ : ∃ hw : Fin 2, lsl = Int32.ofNat (16 * hw.val) := by
      obtain rfl | rfl := hlsl
      · exact ⟨0, rfl⟩
      · exact ⟨1, rfl⟩
    rw [hencoder] at hword
    by_cases hwd : wd.toNat < 32
    · obtain ⟨word', hword', hnat⟩ := encodeMove_of_valid imm hid (hvalid hw) hwd
      have hsame : word' = word := uintBytes_inj (Except.ok.inj (hword'.symm.trans hword))
      have hw_lt := hw.isLt
      rw [hsame, (shift_of_half hw).2.1] at hnat
      obtain ⟨hcode, hhw, himm, hrd⟩ := fields_of_moveWord hid (by omega) imm.toNat_lt hwd hnat
      refine ⟨hcode, by omega, hrd, ?_⟩
      rw [toNat_imm_shiftLeft, himm, hhw]
    · have hrefused : ∃ message, encodeMove id wd imm (Int32.ofNat (16 * hw.val)) =
          .error (armv8Exception message) := encodeMove_of_not_valid fun h => hwd h.2
      obtain ⟨message, herror⟩ := hrefused
      rw [hword] at herror
      cases herror
  · rintro ⟨hcode, hhw, hrd, hv⟩
    have hrd_lt := field_lt word 0 5
    have himm : (imm16 word).toNat = field word 5 16 := by
      rw [imm16]
      exact UInt16.toNat_ofNat_of_lt' (field_lt word 5 16)
    set hw : Fin 2 := ⟨field word 21 2, hhw⟩ with hhwdef
    obtain ⟨word', hword', hnat⟩ :=
      encodeMove_of_valid (imm16 word) hid (hvalid hw) (by omega : wd.toNat < 32)
    rw [(shift_of_half hw).2.1] at hnat
    have hsame : word' = word := by
      rw [← UInt32.toNat_inj, hnat, word_of_moveFields hcode rfl himm.symm hrd]
    refine ⟨imm16 word, _, hshift hw, by rw [hencoder, hword', hsame], ?_⟩
    rw [← UInt32.toNat_inj, toNat_imm_shiftLeft, himm, hv]

theorem encodedAdd_iff {xnValue v : Int64} :
    EncodedAdd word xd xn xnValue v ↔ armv8DecodeAddImm (uintBytes word) xd xn xnValue = .ok v := by
  have hshift : ∀ n < 2, ∃ lsl : Int32, (lsl = 0 ∨ lsl = 12) ∧ (lsl / 12).toUInt32.toNat = n := by
    intro n hn
    obtain rfl | rfl : n = 0 ∨ n = 1 := by omega
    · exact ⟨0, by decide⟩
    · exact ⟨12, by decide⟩
  have hamount : ∀ lsl : Int32, lsl = 0 ∨ lsl = 12 →
      (lsl / 12).toUInt32.toNat < 2 ∧
        4096 ^ (lsl / 12).toUInt32.toNat = 2 ^ lsl.toUInt32.toNat := by
    rintro lsl (rfl | rfl) <;> decide
  rw [armv8DecodeAddImm_eq_ok]
  constructor
  · rintro ⟨imm, lsl, himm, hlsl, hword, rfl⟩
    by_cases hregs : xd.toNat < 32 ∧ xn.toNat < 32
    · obtain ⟨word', hword', hnat⟩ := armv8EncodeAddImm_of_valid ⟨hlsl, hregs⟩ himm
      have hsame : word' = word := uintBytes_inj (Except.ok.inj (hword'.symm.trans hword))
      rw [hsame] at hnat
      obtain ⟨hid, -, -, hbit, himm', hrn, hrd⟩ :=
        fields_of_addImmWord (hamount lsl hlsl).1 himm hregs.2 hregs.1 hnat
      refine ⟨hid, hrn, hrd, ?_⟩
      rw [himm', hbit, (hamount lsl hlsl).2]
    · have hrefused : ∃ message, armv8EncodeAddImm xd xn imm lsl =
          .error (armv8Exception message) := armv8EncodeAddImm_of_not_valid fun h => hregs h.2
      obtain ⟨message, herror⟩ := hrefused
      rw [hword] at herror
      cases herror
  · rintro ⟨hid, hrn, hrd, rfl⟩
    have hrd_lt := field_lt word 0 5
    have hrn_lt := field_lt word 5 5
    have himm_lt := field_lt word 10 12
    obtain ⟨lsl, hlsl, hbit⟩ := hshift (field word 22 1) (field_lt word 22 1)
    have himm : (UInt16.ofNat (field word 10 12)).toNat = field word 10 12 :=
      UInt16.toNat_ofNat_of_lt' (by change _ < 2 ^ 16; omega)
    obtain ⟨word', hword', hnat⟩ := armv8EncodeAddImm_of_valid
      (⟨hlsl, by omega, by omega⟩ : AddOperands xd xn lsl) (himm.trans_lt himm_lt)
    have hsame : word' = word := by
      rw [← UInt32.toNat_inj, hnat, hbit, himm]
      have hlt := word.toNat_lt
      unfold field at *
      omega
    refine ⟨_, lsl, himm.trans_lt himm_lt, hlsl, by rw [hword', hsame], ?_⟩
    rw [himm, ← (hamount lsl hlsl).2, hbit]

theorem word_of_adrpFields (hop : field word 31 1 = 1) (hcode : field word 24 5 = 0b10000) :
    word.toNat = 2 ^ 31 + immPages word % 4 * 2 ^ 29 + 2 ^ 28 + field word 23 1 * 2 ^ 23 +
      immPages word / 4 * 2 ^ 5 + field word 0 5 := by
  have hlt := word.toNat_lt
  have hhigh : immPages word / 4 = field word 5 18 := by
    have hlow_lt := field_lt word 29 2
    unfold immPages
    omega
  have hlow : immPages word % 4 = field word 29 2 := by
    have hlow_lt := field_lt word 29 2
    unfold immPages
    omega
  rw [hhigh, hlow]
  unfold field at *
  omega

/-- Every distance and every sign is that of a label from some place. -/
theorem exists_label {sign pages : ℕ} (hsign : sign < 2) (hpages : pages < 2 ^ 20) :
    ∃ label pc : Int64, LabelInRange label ∧ (if label < 0 then 1 else 0) = sign ∧
      pageDelta label pc % 2 ^ 20 = pages := by
  unfold LabelInRange pageDelta
  obtain rfl | rfl : sign = 0 ∨ sign = 1 := by omega
  · have hlabel : (Int64.ofInt (pages * 4096)).toInt = pages * 4096 :=
      Int64.toInt_ofInt_of_le (by omega) (by omega)
    have hnonneg : ¬ Int64.ofInt (pages * 4096) < 0 := by
      rw [Int64.lt_iff_toInt_lt, hlabel]
      change ¬ (pages * 4096 : ℤ) < 0
      omega
    have hzero : (0 : Int64).toInt = 0 := rfl
    refine ⟨Int64.ofInt (pages * 4096), 0, ?_, if_neg hnonneg, ?_⟩
    · rw [hlabel, abs_of_nonneg (by omega)]
      omega
    · rw [hlabel, hzero]
      omega
  · have hpc : (Int64.ofInt ((-1 - pages) * 4096)).toInt = (-1 - pages) * 4096 :=
      Int64.toInt_ofInt_of_le (by omega) (by omega)
    have hlabel : (-4096 : Int64).toInt = -4096 := rfl
    refine ⟨-4096, Int64.ofInt ((-1 - pages) * 4096), by decide, by decide, ?_⟩
    rw [hlabel, hpc]
    omega

theorem encodedAdrp_iff (hxd : xd.toNat < 32) :
    EncodedAdrp word xd ↔
      field word 31 1 = 1 ∧ field word 24 5 = 0b10000 ∧ field word 0 5 = xd.toNat := by
  constructor
  · rintro ⟨label, pc, hword⟩
    by_cases hmin : label = Int64.minValue
    · rw [hmin, armv8EncodeAdrp_minValue] at hword
      cases hword
    by_cases hrange : LabelInRange label
    · obtain ⟨word', hword', hop, hcode, hrd, -⟩ := armv8EncodeAdrp_of_inRange pc hrange hxd
      have hsame : word' = word := uintBytes_inj (Except.ok.inj (hword'.symm.trans hword))
      rw [hsame] at hop hcode hrd
      exact ⟨hop, hcode, hrd⟩
    · have hrefused : ∃ message, armv8EncodeAdrp xd label pc = .error (armv8Exception message) :=
        armv8EncodeAdrp_of_not_inRange hrange hmin
      obtain ⟨message, herror⟩ := hrefused
      rw [hword] at herror
      cases herror
  · rintro ⟨hop, hcode, hrd⟩
    obtain ⟨label, pc, hlabel, hneg, hdelta⟩ :=
      exists_label (field_lt word 23 1) (immPages_lt word)
    obtain ⟨word', hword', hop', hcode', hrd', hsign', hpages'⟩ :=
      armv8EncodeAdrp_of_inRange pc hlabel hxd
    have himm : immPages word' = immPages word := by
      rw [hdelta] at hpages'
      exact_mod_cast hpages'
    have hsame : word' = word := by
      rw [← UInt32.toNat_inj, word_of_adrpFields hop' hcode', word_of_adrpFields hop hcode, himm,
        hsign', hneg, hrd', hrd]
    exact ⟨label, pc, by rw [hword', hsame]⟩

/-! ### All words -/

/-- The decoder of `movz` accepts the moves of its own, and the masks. -/
theorem armv8DecodeMovz_eq_ok_iff_or :
    armv8DecodeMovz (uintBytes word) wd = .ok v ↔
      decodeMove "MOVZ" movzId (uintBytes word) wd = .ok v ∨
        ∃ imm, armv8DecodeOrr (uintBytes word) wd wzr = .ok imm ∧ v = imm.toUInt32 := by
  rw [armv8DecodeMovz]
  cases horr : armv8DecodeOrr (uintBytes word) wd wzr with
  | ok imm =>
    obtain ⟨hid, -⟩ := armv8DecodeOrr_eq_ok.mp horr
    have hmove : decodeMove "MOVZ" movzId (uintBytes word) wd ≠ .ok v := by
      intro hmove
      have hclash : field word 23 9 = 0b010100101 := (decodeMove_eq_ok.mp hmove).1
      unfold field at hid hclash
      omega
    constructor
    · intro h
      exact .inr ⟨imm, rfl, (Except.ok.inj h).symm⟩
    · rintro (h | ⟨imm', h, rfl⟩)
      · exact absurd h hmove
      · rw [Except.ok.inj h]
  | error x =>
    obtain ⟨message, rfl⟩ := armv8DecodeOrr_eq_error horr
    constructor
    · exact fun h => .inl h
    · rintro (h | ⟨imm, h, -⟩)
      · exact h
      · cases h

theorem exists_armv8DecodeAdrp_iff (pc : UInt32) :
    (∃ target, armv8DecodeAdrp (uintBytes word) xd pc = .ok target) ↔
      xd.toNat < 32 ∧ EncodedAdrp word xd := by
  constructor
  · rintro ⟨target, htarget⟩
    obtain ⟨hop, hcode, hrd, -⟩ := armv8DecodeAdrp_eq_ok.mp htarget
    have hrd_lt := field_lt word 0 5
    have hxd : xd.toNat < 32 := by omega
    exact ⟨hxd, (encodedAdrp_iff hxd).mpr ⟨hop, hcode, hrd⟩⟩
  · rintro ⟨hxd, hencoded⟩
    obtain ⟨hop, hcode, hrd⟩ := (encodedAdrp_iff hxd).mp hencoded
    have hbounds := pagesRead_bounds word
    have hpc := pc.toNat_lt
    exact ⟨_, armv8DecodeAdrp_eq_ok.mpr
      ⟨hop, hcode, hrd, Int64.toInt_ofInt_of_le (by omega) (by omega)⟩⟩

/-- The words that are accepted are those that the encoders return for operands that fit, and those
of `orr`. -/
theorem accepted_iff_encoded (word v : UInt32) (wd xd xn : UInt8) (pc : UInt32)
    (xnValue sum : Int64) :
    (armv8DecodeMovk (uintBytes word) wd = .ok v ↔ EncodedMove armv8EncodeMovk word wd v) ∧
    (armv8DecodeMovz (uintBytes word) wd = .ok v ↔ EncodedMove armv8EncodeMovz word wd v ∨
      ∃ imm, armv8DecodeOrr (uintBytes word) wd wzr = .ok imm ∧ v = imm.toUInt32) ∧
    (armv8DecodeAddImm (uintBytes word) xd xn xnValue = .ok sum ↔
      EncodedAdd word xd xn xnValue sum) ∧
    ((∃ target, armv8DecodeAdrp (uintBytes word) xd pc = .ok target) ↔
      xd.toNat < 32 ∧ EncodedAdrp word xd) := by
  have hmovk : EncodedMove armv8EncodeMovk word wd v ↔
      decodeMove "MOVK" movkId (uintBytes word) wd = .ok v :=
    (encodedMove_iff (by decide) fun _ _ _ => rfl).trans decodeMove_eq_ok.symm
  have hmovz : EncodedMove armv8EncodeMovz word wd v ↔
      decodeMove "MOVZ" movzId (uintBytes word) wd = .ok v :=
    (encodedMove_iff (by decide) fun _ _ _ => rfl).trans decodeMove_eq_ok.symm
  exact ⟨hmovk.symm, armv8DecodeMovz_eq_ok_iff_or.trans (or_congr_left hmovz.symm),
    encodedAdd_iff.symm, exists_armv8DecodeAdrp_iff pc⟩

/-- No word is taken for two instructions, but those of `orr` for moves, and no word of the other
encoders is taken for one. -/
theorem accepts_unique (word : UInt32) :
    (∀ d d', Accepts word d → Accepts word d' →
      d = d' ∨ d = .orr ∧ d' = .movz ∨ d = .movz ∧ d' = .orr) ∧
    ∀ d, Accepts word d →
      (∀ label, armv8EncodeB label ≠ .ok (uintBytes word)) ∧
      (∀ label, armv8EncodeBl label ≠ .ok (uintBytes word)) ∧
      (∀ svc, armv8EncodeSvc svc ≠ uintBytes word) ∧
        armv8EncodeNop ≠ uintBytes word ∧ armv8EncodeRet ≠ uintBytes word := by
  refine ⟨fun _ _ h h' => h.unique h', fun d h => ⟨?_, ?_, ?_, ?_, ?_⟩⟩
  · exact fun label hb => not_accepts_branch (k := .b) hb d h
  · exact fun label hbl => not_accepts_branch (k := .bl) hbl d h
  · exact fun svc hsvc => not_accepts_svc hsvc d h
  · exact fun hnop => not_accepts_nop hnop d h
  · exact fun hret => not_accepts_ret hret d h

end Sp2Module.ArmUtils
