import Sp2Module.PatchBranch

/-!
# Patches that no segment backs

A patch address is resolved through the flat sum of the module sizes. Where the module it names is
absent, or no segment of it holds the patched range, the entry is refused unless the address lies
in a gap page, where the write is skipped, or under another module that holds the range. A payload
is refused when its target is not in the symbol list or too far away for the encoder.
-/

namespace Sp2Module

namespace Nso

/-- The first segment over `addr` holds `n` bytes from there, in its size and in its buffer. -/
def Holds (nso : Nso) (addr : UInt32) (n : ℕ) : Prop :=
  ∃ t, nso.getAddressSegment addr = some t ∧
    addr.toNat + n ≤ (nso.segments t).address.toNat + (nso.segments t).decompressedSize.toNat ∧
    addr.toNat - (nso.segments t).address.toNat + n ≤ (nso.segments t).rawData.length

theorem holds_iff_locate {nso : Nso} {addr : UInt32} {n : ℕ} :
    nso.Holds addr n ↔ ∃ t off, nso.locate addr n = .ok (t, off) := by
  constructor
  · rintro ⟨t, hseg, hend, hraw⟩
    have hc := getAddressSegment_eq_some hseg
    refine ⟨t, addr.toNat - (nso.segments t).address.toNat, ?_⟩
    simp only [locate, hseg]
    rw [NsoSegment.toNat_sub_address hc, if_neg (by rw [hc.toNat_endAddress]; omega), if_pos hraw]
  · rintro ⟨t, off, h⟩
    obtain ⟨hseg, -, haddr, hend, hraw⟩ := locate_eq_ok h
    exact ⟨t, hseg, by omega, by omega⟩

end Nso

namespace ExeFS

variable {e : ExeFS} {T : NsoTypeEnum} {addr : ℤ} {n : ℕ}

/-- Slot `T` is empty, or no single segment of its module contains the bytes `[off, off + n)`. -/
def Unbacked (e : ExeFS) (T : NsoTypeEnum) (off n : ℕ) : Prop :=
  ∀ r, e.nsos T = some r → ∀ t, ∃ a, off ≤ a ∧ a < off + n ∧
    ¬ (((e.objects r).segments t).address.toNat ≤ a ∧
      a < ((e.objects r).segments t).address.toNat +
        ((e.objects r).segments t).decompressedSize.toNat)

/-- The page over the address has no read permission. -/
def InGap (e : ExeFS) (addr : ℤ) : Prop :=
  ∃ page, e.getAddressPage addr = some page ∧ page.permission.readable = false

/-- The address lies on a readable page, and the first module over it is not the one in slot `T`
and holds `n` bytes there. -/
def UnderAnother (e : ExeFS) (T : NsoTypeEnum) (addr : ℤ) (n : ℕ) : Prop :=
  ∃ page i r, e.getAddressPage addr = some page ∧ page.permission.readable = true ∧
    e.FirstOver addr i ∧ i ≠ T ∧ e.nsos i = some r ∧
    (e.objects r).Holds (uintOfLong (addr - e.getNsoAddress i)) n

theorem InGap.locate (h : e.InGap addr) : e.locate addr n = .ok none := by
  obtain ⟨page, hpage, hperm⟩ := h
  simp only [ExeFS.locate, hpage, hperm, Bool.false_eq_true, if_false]

/-- On a readable page, a write is decided by the first module over the address; on any other it is
skipped. -/
theorem locate_eq_ok {w : Option (NsoRef × NsoSegmentType × ℕ)} (h : e.locate addr n = .ok w) :
    (w = none ∧ e.InGap addr) ∨
      ∃ page i r p, w = some (r, p) ∧ e.getAddressPage addr = some page ∧
        page.permission.readable = true ∧ e.FirstOver addr i ∧ e.nsos i = some r ∧
        (e.objects r).locate (uintOfLong (addr - e.getNsoAddress i)) n = .ok p := by
  unfold ExeFS.locate at h
  cases hpage : e.getAddressPage addr with
  | none => simp [hpage] at h
  | some page =>
    simp only [hpage] at h
    by_cases hread : page.permission.readable = true
    · simp only [hread, if_true] at h
      cases hf : NsoTypeEnum.all.find? fun i => e.InImage addr i with
      | none => simp [hf] at h
      | some i =>
        simp only [hf] at h
        have hfirst := find?_inImage_iff.mp hf
        obtain ⟨r, hr⟩ := hfirst.1.exists_ref
        simp only [hr] at h
        cases hloc : (e.objects r).locate (uintOfLong (addr - e.getNsoAddress i)) n with
        | error x => rw [hloc] at h; cases h
        | ok p =>
          rw [hloc] at h
          cases h
          exact .inr ⟨page, i, r, p, rfl, rfl, hread, hfirst, hr, hloc⟩
    · simp only [hread, Bool.false_eq_true, if_false, Except.ok.injEq] at h
      exact .inl ⟨h.symm, page, hpage, by simpa using hread⟩

theorem locate_eq_some {w : NsoRef × NsoSegmentType × ℕ} (h : e.locate addr n = .ok (some w)) :
    ∃ page i, e.getAddressPage addr = some page ∧ page.permission.readable = true ∧
      e.FirstOver addr i ∧ e.nsos i = some w.1 ∧
      (e.objects w.1).locate (uintOfLong (addr - e.getNsoAddress i)) n = .ok w.2 := by
  obtain ⟨hnone, -⟩ | ⟨page, i, r, p, hw, hpage, hread, hfirst, hr, hloc⟩ := locate_eq_ok h
  · cases hnone
  · cases hw
    exact ⟨page, i, hpage, hread, hfirst, hr, hloc⟩

theorem locate_eq_none (h : e.locate addr n = .ok none) : e.InGap addr := by
  obtain ⟨-, hgap⟩ | ⟨_, _, _, _, hw, -⟩ := locate_eq_ok h
  · exact hgap
  · cases hw

/-- A range that no segment of its own module backs can only end up in a gap or in another
module. -/
theorem Unbacked.locate_eq_error_iff {off : UInt32} (h : e.Unbacked T off.toNat n) :
    (∃ x, e.locate (e.getNsoAddress T + off.toNat) n = .error x) ↔
      ¬ e.InGap (e.getNsoAddress T + off.toNat) ∧
        ¬ e.UnderAnother T (e.getNsoAddress T + off.toNat) n := by
  constructor
  · rintro ⟨x, hx⟩
    constructor
    · intro hgap
      rw [hgap.locate] at hx
      cases hx
    · rintro ⟨page, i, r, hpage, hread, hfirst, -, hr, hholds⟩
      obtain ⟨t, o, hloc⟩ := Nso.holds_iff_locate.mp hholds
      simp only [ExeFS.locate, hpage, hread, if_true, find?_inImage_iff.mpr hfirst, hr, hloc] at hx
      cases hx
  · rintro ⟨hgap, hother⟩
    cases hw : e.locate (e.getNsoAddress T + off.toNat) n with
    | error x => exact ⟨x, rfl⟩
    | ok w =>
      exfalso
      cases w with
      | none => exact hgap (locate_eq_none hw)
      | some w =>
        obtain ⟨r, t, o⟩ := w
        obtain ⟨page, i, hpage, hread, hfirst, hr, hloc⟩ := locate_eq_some hw
        dsimp only at hr hloc
        by_cases hi : i = T
        · subst hi
          rw [add_sub_cancel_left, uintOfLong_toNat] at hloc
          obtain ⟨-, -, haddr, hend, -⟩ := Nso.locate_eq_ok hloc
          obtain ⟨a, hle, hlt, hout⟩ := h r hr t
          omega
        · exact hother ⟨page, i, r, hpage, hread, hfirst, hi, hr,
            Nso.holds_iff_locate.mpr ⟨t, o, hloc⟩⟩

end ExeFS

namespace PatchData

variable {e : ExeFS} {symbols : Symbols} {patchAddr : ℤ} {d : PatchData}

/-- The target is not in the symbol list, or the encoder refuses the distance to it. -/
def Refused (e : ExeFS) (symbols : Symbols) (patchAddr : ℤ) : PatchData → Prop
  | data _ => False
  | ptr target => target.slotOffset symbols = none
  | bl target | b target => ∀ T off, target.slotOffset symbols = some (T, off) →
      0x7FFFFFC < (e.getNsoAddress T + off.toNat - patchAddr) % 2 ^ 32 ∨
        (e.getNsoAddress T + off.toNat - patchAddr) % 4 ≠ 0

theorem buffer_branch_eq_error_iff {k : Branch} {target : MemAddress} :
    (∃ x, (branch k target).buffer e symbols patchAddr = .error x) ↔
      ∀ T off, target.slotOffset symbols = some (T, off) →
        0x7FFFFFC < (e.getNsoAddress T + off.toNat - patchAddr) % 2 ^ 32 ∨
          (e.getNsoAddress T + off.toNat - patchAddr) % 4 ≠ 0 := by
  cases hs : target.slotOffset symbols with
  | none =>
    obtain ⟨x, hx⟩ := MemAddress.getAddress_of_slotOffset_eq_none (e := e) hs
    refine iff_of_true ⟨x, ?_⟩ fun T off h => by cases h
    cases k <;> simp only [branch, buffer, hx] <;> rfl
  | some slot =>
    obtain ⟨T, off⟩ := slot
    rw [buffer_branch (MemAddress.getAddress_of_slotOffset hs)]
    have hiff := encodable_uintOfLong (e.getNsoAddress T + off.toNat - patchAddr)
    constructor
    · rintro ⟨x, hx⟩ T' off' h
      obtain ⟨rfl, rfl⟩ := Prod.mk.inj (Option.some.inj h)
      by_contra hnear
      obtain ⟨word, hword, -⟩ :=
        ArmUtils.encodeBranch_of_encodable (k := k) (hiff.mpr (by omega))
      rw [hword] at hx
      cases hx
    · intro h
      have hfar := h T off rfl
      exact ArmUtils.encodeBranch_of_not_encodable (mt hiff.mp (by omega))

theorem buffer_eq_error_iff :
    (∃ x, d.buffer e symbols patchAddr = .error x) ↔ d.Refused e symbols patchAddr := by
  cases d with
  | data bytes => simp [buffer, Refused]
  | ptr target =>
    cases hs : target.slotOffset symbols with
    | none =>
      obtain ⟨x, hx⟩ := MemAddress.getAddress_of_slotOffset_eq_none (e := e) hs
      exact iff_of_true ⟨x, by rw [buffer, hx]; rfl⟩ hs
    | some slot =>
      rw [buffer, MemAddress.getAddress_of_slotOffset hs, Refused, hs]
      simp [Except.map]
  | bl target => exact buffer_branch_eq_error_iff (k := .bl)
  | b target => exact buffer_branch_eq_error_iff (k := .b)

end PatchData

namespace PatchEntry

variable {e : ExeFS} {symbols : Symbols} {p : PatchEntry} {T : NsoTypeEnum} {off : UInt32}

/-- An entry whose range no segment of the module it names backs throws and changes nothing. -/
def RejectsUnbacked (p : PatchEntry) (e : ExeFS) (symbols : Symbols) : Prop :=
  ∀ T off, p.address.slotOffset symbols = some (T, off) →
    e.Unbacked T off.toNat p.data.length → ∃ x, p.apply symbols e = .error x e

theorem apply_eq_error_iff (h : p.address.slotOffset symbols = some (T, off)) :
    (∃ x, p.apply symbols e = .error x e) ↔
      p.data.Refused e symbols (e.getNsoAddress T + off.toNat) ∨
        ∃ x, e.locate (e.getNsoAddress T + off.toNat) p.data.length = .error x := by
  rw [← PatchData.buffer_eq_error_iff]
  simp only [apply, MemAddress.getAddress_of_slotOffset h]
  cases hb : p.data.buffer e symbols (e.getNsoAddress T + off.toNat) with
  | error x => simp
  | ok buffer =>
    rw [← PatchData.length_buffer hb]
    simp only [ExeFS.writeExeFs_eq, reduceCtorEq, exists_false, false_or]
    cases e.locate (e.getNsoAddress T + off.toNat) buffer.length with
    | error x => simp
    | ok w => cases w <;> simp

/-- Unbacked entries throw exactly when their payload is refused, or their address is neither in a
gap page nor under another module that holds the range. -/
theorem rejectsUnbacked_iff (p : PatchEntry) (e : ExeFS) (symbols : Symbols) :
    p.RejectsUnbacked e symbols ↔
      ∀ T off, p.address.slotOffset symbols = some (T, off) →
        e.Unbacked T off.toNat p.data.length →
        p.data.Refused e symbols (e.getNsoAddress T + off.toNat) ∨
          (¬ e.InGap (e.getNsoAddress T + off.toNat) ∧
            ¬ e.UnderAnother T (e.getNsoAddress T + off.toNat) p.data.length) := by
  constructor
  · intro h T off hT hun
    have hiff := apply_eq_error_iff (e := e) hT
    rw [hun.locate_eq_error_iff] at hiff
    exact hiff.mp (h T off hT hun)
  · intro h T off hT hun
    have hiff := apply_eq_error_iff (e := e) hT
    rw [hun.locate_eq_error_iff] at hiff
    exact hiff.mpr (h T off hT hun)

/-- With `main` alone loaded, a patch behind its only page is refused. -/
theorem rejectsUnbacked_behindMain :
    (ExeFS.ofMain (textNso [0])).Unbacked .main 0x10 1 ∧
      (⟨.offset .main 0x10, .data [1]⟩ : PatchEntry).RejectsUnbacked
        (ExeFS.ofMain (textNso [0])) [] := by
  have hpage : (ExeFS.ofMain (textNso [0])).getAddressPage 0x10 = none := by decide
  have hout : ∀ t, ¬ (((textNso [0]).segments t).address.toNat ≤ 0x10 ∧ 0x10 <
      ((textNso [0]).segments t).address.toNat +
        ((textNso [0]).segments t).decompressedSize.toNat) := by
    intro t
    cases t <;> decide
  refine ⟨fun r _ t => ⟨0x10, by decide, by decide, hout t⟩, ?_⟩
  refine (rejectsUnbacked_iff _ _ _).mpr fun T off hT _ => Or.inr ?_
  obtain ⟨rfl, rfl⟩ := Prod.mk.inj (Option.some.inj hT)
  have haddr : (ExeFS.ofMain (textNso [0])).getNsoAddress .main + (0x10 : UInt32).toNat = 0x10 := by
    decide
  rw [if_neg (by decide), haddr]
  constructor
  · rintro ⟨page, h, -⟩
    rw [hpage] at h
    cases h
  · rintro ⟨page, i, r, h, -⟩
    rw [hpage] at h
    cases h

/-- With `main` alone loaded, a patch of `rtld` lands in `main`; with `rtld` and `main` loaded, a
patch between them is dropped. -/
theorem not_rejectsUnbacked :
    (∃ e', (⟨.offset .rtld 0, .data [1]⟩ : PatchEntry).apply [] (ExeFS.ofMain (textNso [0])) =
        .ok () e' ∧ ((e'.objects 0).segments .text).rawData = [1]) ∧
      ¬ (⟨.offset .rtld 0, .data [1]⟩ : PatchEntry).RejectsUnbacked
        (ExeFS.ofMain (textNso [0])) [] ∧
      ¬ (⟨.offset .rtld 0x10, .data [1]⟩ : PatchEntry).RejectsUnbacked
        (ExeFS.firstSlots 2 (textNso [0])) [] := by
  have hland : (⟨.offset .rtld 0, .data [1]⟩ : PatchEntry).resolve (ExeFS.ofMain (textNso [0])) [] =
      .ok (some ⟨0, .text, 0, [1]⟩) := by decide
  have hskip : (⟨.offset .rtld 0x10, .data [1]⟩ : PatchEntry).resolve
      (ExeFS.firstSlots 2 (textNso [0])) [] = .ok none := by decide
  refine ⟨⟨(ExeFS.ofMain (textNso [0])).overlay 0 .text 0 [1], ?_, ?_⟩, ?_, ?_⟩
  · rw [apply_eq, hland]
    rfl
  · rw [ExeFS.objects_overlay_same]
    decide
  · intro h
    obtain ⟨x, hx⟩ := h .rtld 0 rfl (by intro r hr; cases hr)
    rw [apply_eq, hland] at hx
    cases hx
  · intro h
    have hout : ∀ t, ¬ (((textNso [0]).segments t).address.toNat ≤ 0x10 ∧ 0x10 <
        ((textNso [0]).segments t).address.toNat +
          ((textNso [0]).segments t).decompressedSize.toNat) := by
      intro t
      cases t <;> decide
    obtain ⟨x, hx⟩ := h .rtld 0x10 rfl fun r _ t => ⟨0x10, by decide, by decide, hout t⟩
    rw [apply_eq, hskip] at hx
    cases hx

end PatchEntry

end Sp2Module
