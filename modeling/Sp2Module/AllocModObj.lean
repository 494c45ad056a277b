import Sp2Module.NsoRoundTrip

/-!
# The module object of the custom module

The bss of the custom module grows by `0x100` bytes for its module object, and a new module header
is written over the old one. `Fits` is what the header needs for that: nothing else that is decoded
lies under it. What is decoded afterwards has the old addresses and the new bss, and so does the
file of the NSO.
-/

namespace Sp2Module

open NsoSegmentType

/-- The NSO with `0x100` bytes more at the end of its bss. -/
def growBss (nso : Nso) : Nso :=
  nso.setBssOrAlign rwdata (nso.rwdataSegment.bssOrAlign + 0x100)

def allocModObj : EStateM Exception Nso Unit := fun nso =>
  let nso := growBss nso
  match nso.getModAddr with
  | .error x => .error x nso
  | .ok modAddr =>
    match nso.modSection with
    | none => .error .nullReference nso
    | some m =>
      match ModHeader.createModHeader modAddr.toNat m.dynamicAddr m.ehStartAddr m.ehEndAddr
          m.bssEndAddr nso with
      | .error x nso => .error x nso
      | .ok _ nso => .ok () nso

namespace ModHeader

variable {nso : Nso} {m : ModHeader}

/-- The header ends the bss where the NSO does, and lies apart from the word that points to it and
from the dynamic table; all addresses are below `2 ^ 31`, also after the bss has grown. -/
structure Fits (m : ModHeader) (nso : Nso) : Prop where
  sized : nso.Sized
  bssEnd : m.bssEndAddr = nso.rwdataSegment.address.toNat +
    nso.rwdataSegment.decompressedSize.toNat + nso.rwdataSegment.bssOrAlign.toNat
  pointer : m.baseAddr + headerSize ≤ 4 ∨ 8 ≤ m.baseAddr
  dynamic : m.baseAddr + headerSize ≤ m.dynamicAddr ∨ m.dynamicAddr + 0x200 ≤ m.baseAddr
  segment_lt : ∀ t,
    (nso.segments t).address.toNat + (nso.segments t).decompressedSize.toNat < 2 ^ 31
  bss_lt : nso.rwdataSegment.address.toNat + nso.rwdataSegment.decompressedSize.toNat +
    nso.rwdataSegment.bssOrAlign.toNat + 0x100 < 2 ^ 31

theorem intOfLong_add_sub (base : ℤ) (x : Int32) : intOfLong (base + x.toInt - base) = x := by
  rw [add_sub_cancel_left, intOfLong, Int32.ofInt_toInt]

/-- A value that fits is stored relative to the header without loss. -/
theorem add_toInt_intOfLong {base x : ℤ} (hb : 0 ≤ base) (hb' : base < 2 ^ 31) (hx : 0 ≤ x)
    (hx' : x < 2 ^ 31) : base + (intOfLong (x - base)).toInt = x := by
  rw [intOfLong, Int32.toInt_ofInt_of_le (by omega) (by omega)]
  omega

theorem Fits.base_lt (h : m.Fits nso) (hm : ofNso nso = .ok m) :
    0 ≤ m.baseAddr ∧ m.baseAddr + headerSize < 2 ^ 31 := by
  obtain ⟨base, buffer, info, -, hraw, hbase, -, -⟩ := ofNso_eq_ok hm
  obtain ⟨t, -, hend, -⟩ := Nso.readNso_eq_ok (n := 0x1C) hraw
  have hlt := h.segment_lt t
  rw [hbase, headerSize]
  omega

/-- The dynamic table is read at the address the header gives for it. -/
theorem Fits.toNat_dynamicAddr (h : m.Fits nso) (hm : ofNso nso = .ok m) :
    ((uintOfLong m.dynamicAddr).toNat : ℤ) = m.dynamicAddr := by
  obtain ⟨hb, hb'⟩ := h.base_lt hm
  obtain ⟨base, buffer, info, -, -, -, hinfo, -⟩ := ofNso_eq_ok hm
  obtain ⟨table, htable, -⟩ := except_bind_eq_ok.mp hinfo
  obtain ⟨t, -, hend, -⟩ := Nso.readNso_eq_ok (n := 0x200) htable
  have hlt := h.segment_lt t
  have hcast := toNat_uintOfLong m.dynamicAddr
  have hlo := Int32.le_toInt m.dynAddr
  have hhi := Int32.toInt_lt m.dynAddr
  unfold dynamicAddr at hcast hend ⊢
  omega

/-- The header `AllocModObj` writes. -/
def withModObj (m : ModHeader) (nso : Nso) : ModHeader :=
  create (growBss nso) m.baseAddr m.dynamicAddr m.ehStartAddr m.ehEndAddr m.bssEndAddr

theorem rwdataSegment_growBss (nso : Nso) : (growBss nso).rwdataSegment =
    { nso.rwdataSegment with bssOrAlign := nso.rwdataSegment.bssOrAlign + 0x100 } :=
  Nso.segments_setSegment_same _ _ _

theorem dynamicAddr_withModObj (m : ModHeader) (nso : Nso) :
    (m.withModObj nso).dynamicAddr = m.dynamicAddr := by
  simp only [withModObj, create, dynamicAddr, intOfLong_add_sub]

theorem ehStartAddr_withModObj (m : ModHeader) (nso : Nso) :
    (m.withModObj nso).ehStartAddr = m.ehStartAddr := by
  simp only [withModObj, create, ehStartAddr, intOfLong_add_sub]

theorem ehEndAddr_withModObj (m : ModHeader) (nso : Nso) :
    (m.withModObj nso).ehEndAddr = m.ehEndAddr := by
  simp only [withModObj, create, ehEndAddr, intOfLong_add_sub]

theorem moduleObjAddr_withModObj (m : ModHeader) (nso : Nso) :
    (m.withModObj nso).moduleObjAddr = m.bssEndAddr := by
  simp only [withModObj, create, moduleObjAddr, bssEndAddr, intOfLong_add_sub]

theorem Fits.toNat_bssOrAlign (h : m.Fits nso) :
    (nso.rwdataSegment.bssOrAlign + 0x100).toNat = nso.rwdataSegment.bssOrAlign.toNat + 0x100 := by
  have hlt := h.bss_lt
  have hc : (0x100 : UInt32).toNat = 0x100 := rfl
  rw [UInt32.toNat_add, hc, Nat.mod_eq_of_lt (by omega)]

theorem Fits.toNat_endAddress (h : m.Fits nso) : nso.rwdataSegment.endAddress.toNat =
    nso.rwdataSegment.address.toNat + nso.rwdataSegment.decompressedSize.toNat := by
  have hlt := h.bss_lt
  rw [NsoSegment.toNat_endAddress, Nat.mod_eq_of_lt (by omega)]

theorem Fits.toNat_endAddress_growBss (h : m.Fits nso) : (growBss nso).endAddress.toNat =
    nso.rwdataSegment.address.toNat + nso.rwdataSegment.decompressedSize.toNat +
      nso.rwdataSegment.bssOrAlign.toNat + 0x100 := by
  have hlt := h.bss_lt
  have hend := h.toNat_endAddress
  have hbss := h.toNat_bssOrAlign
  have hsum : (growBss nso).endAddress =
      nso.rwdataSegment.endAddress + (nso.rwdataSegment.bssOrAlign + 0x100) := by
    simp only [Nso.endAddress, rwdataSegment_growBss, NsoSegment.endAddress]
  rw [hsum, UInt32.toNat_add, hend, hbss]
  generalize 0x100 = c at hlt ⊢
  omega

theorem Fits.bssStartAddr_withModObj (h : m.Fits nso) (hm : ofNso nso = .ok m) :
    (m.withModObj nso).bssStartAddr = nso.rwdataSegment.address.toNat +
      nso.rwdataSegment.decompressedSize.toNat := by
  obtain ⟨hb, hb'⟩ := h.base_lt hm
  have hlt := h.bss_lt
  have hend : (growBss nso).rwdataSegment.endAddress.toNat = _ := h.toNat_endAddress
  unfold headerSize at hb'
  simp only [withModObj, create, bssStartAddr, hend]
  rw [add_toInt_intOfLong hb (by omega) (by omega) (by omega)]
  omega

theorem Fits.bssEndAddr_withModObj (h : m.Fits nso) (hm : ofNso nso = .ok m) :
    (m.withModObj nso).bssEndAddr = m.bssEndAddr + 0x100 := by
  obtain ⟨hb, hb'⟩ := h.base_lt hm
  have hlt := h.bss_lt
  have hstart := h.bssStartAddr_withModObj hm
  have hbss := h.toNat_bssOrAlign
  have hold := h.bssEnd
  unfold headerSize at hb'
  simp only [withModObj, create, bssStartAddr] at hstart
  rw [hold]
  simp only [withModObj, create, bssEndAddr, hstart]
  rw [rwdataSegment_growBss]
  dsimp only
  rw [hbss, add_toInt_intOfLong hb (by omega) (by omega) (by omega)]
  push_cast
  ring

end ModHeader

/-- What has become of an NSO with header `m` when `m'` is decoded from it afterwards. -/
structure ModObjAllocated (nso : Nso) (m : ModHeader) (nso' : Nso) (m' : ModHeader) : Prop where
  baseAddr : m'.baseAddr = m.baseAddr
  dynamicAddr : m'.dynamicAddr = m.dynamicAddr
  ehStartAddr : m'.ehStartAddr = m.ehStartAddr
  ehEndAddr : m'.ehEndAddr = m.ehEndAddr
  dynInfo : m'.dynInfo = m.dynInfo
  bssStartAddr : m'.bssStartAddr =
    nso.rwdataSegment.address.toNat + nso.rwdataSegment.decompressedSize.toNat
  bssEndAddr : m'.bssEndAddr = m.bssEndAddr + 0x100
  endAddress : m'.bssEndAddr = nso'.endAddress.toNat
  moduleObjAddr : m'.moduleObjAddr = m.bssEndAddr
  inside : m'.bssStartAddr ≤ m'.moduleObjAddr ∧ m'.moduleObjAddr + 0x100 ≤ m'.bssEndAddr
  apart : ∀ a, m.bssStartAddr ≤ a → a < m.bssEndAddr →
    ¬ (m'.moduleObjAddr ≤ a ∧ a < m'.moduleObjAddr + 0x100)
  rawData : ∀ t (k : ℕ), ((nso.segments t).address.toNat + k < m.baseAddr ∨
      m.baseAddr + ModHeader.headerSize ≤ (nso.segments t).address.toNat + k) →
    (nso'.segments t).rawData[k]? = (nso.segments t).rawData[k]?

section Alloc

variable {nso : Nso} {m : ModHeader}

/-- The pointer to the header is read from bytes that are not written. -/
theorem getModAddr_overlay {t : NsoSegmentType} {off : ℕ} {addr : UInt32} {data : Bytes}
    (hoff : off + (nso.segments t).address.toNat = addr.toNat)
    (h : addr.toNat + data.length ≤ 4 ∨ 8 ≤ addr.toNat) :
    (nso.overlay t off data).getModAddr = nso.getModAddr := by
  have hfour : (4 : UInt32).toNat = 4 := rfl
  have hkeep : (nso.overlay t off data).readNso 4 4 = nso.readNso 4 4 :=
    Nso.readNso_overlay_of_disjoint (n := 4) hoff (by omega)
  unfold Nso.getModAddr
  rw [hkeep]

/-- The dynamic table is read from bytes that are not written. -/
theorem dynamicInfo_overlay {t : NsoSegmentType} {off : ℕ} {addr : UInt32} {data : Bytes} {a : ℤ}
    (hoff : off + (nso.segments t).address.toNat = addr.toNat)
    (h : addr.toNat + data.length ≤ (uintOfLong a).toNat ∨
      (uintOfLong a).toNat + 0x200 ≤ addr.toNat) :
    DynamicInfo.ofNso (nso.overlay t off data) a = DynamicInfo.ofNso nso a := by
  have hkeep : (nso.overlay t off data).readNso (uintOfLong a) 0x200 =
      nso.readNso (uintOfLong a) 0x200 :=
    Nso.readNso_overlay_of_disjoint (n := 0x200) hoff (by omega)
  unfold DynamicInfo.ofNso
  rw [hkeep]

/-- The word that points to the header is written as it is. -/
theorem writeNso_modAddr {base : UInt32} (hs : nso.Sized) (h : nso.getModAddr = .ok base) :
    ∃ t off, Nso.writeNso 4 (uintBytes base) nso = .ok () (nso.overlay t off (uintBytes base)) ∧
      (nso.overlay t off (uintBytes base)).SameImage nso := by
  obtain ⟨b, hread, hb⟩ := except_bind_eq_ok.mp h
  obtain ⟨t, off, hloc, -, hslice, hlen⟩ := Nso.locate_of_readNso (n := 4) hs hread
  have hbytes : uintBytes base = b := by
    unfold toUInt32 at hb
    rw [if_neg (by omega), List.take_of_length_le (by omega)] at hb
    rw [← Except.ok.inj hb, uintBytes_uintOfBytes hlen]
  obtain ⟨-, -, -, -, hraw⟩ := Nso.locate_eq_ok hloc
  refine ⟨t, off, ?_, Nso.sameImage_overlay hraw (hslice.trans hbytes.symm)⟩
  rw [Nso.writeNso_eq, length_uintBytes, hloc]

/-- Writing a header where one has been read succeeds, and changes nothing but the bytes of the
header and the hashes. -/
theorem write_of_readNso {base : UInt32} {buffer : Bytes} (hs : nso.Sized)
    (hbase : nso.getModAddr = .ok base) (hread : nso.readNso base 0x1C = .ok buffer)
    (hm : m.baseAddr = base.toNat) :
    ∃ (nso₁ : Nso) (t : NsoSegmentType) (off : ℕ),
      m.write nso = .ok () (nso₁.overlay t off m.raw) ∧ nso₁.SameImage nso ∧
        nso₁.layout = nso.layout ∧ nso₁.locate base m.raw.length = .ok (t, off) := by
  have huint : uintOfLong m.baseAddr = base := by rw [hm, uintOfLong_toNat]
  obtain ⟨t₀, off₀, hwrite, hsame⟩ := writeNso_modAddr hs hbase
  rw [← hsame.readNso] at hread
  obtain ⟨t, off, hloc, -, -, -⟩ := Nso.locate_of_readNso (n := 0x1C) (hsame.sized hs) hread
  have hlen : m.raw.length = 0x1C := m.length_raw
  refine ⟨_, t, off, ?_, hsame, nso.layout_overlay _ _ _, by rw [hlen, hloc]⟩
  simp only [ModHeader.write, huint, bind, EStateM.bind, hwrite]
  rw [Nso.writeNso_eq, hlen, hloc]

theorem allocModObj_eq {base : UInt32} {nso' : Nso} (hbase : (growBss nso).getModAddr = .ok base)
    (hm : m.baseAddr = base.toNat) (hmod : nso.modSection = some m)
    (hwrite : (m.withModObj nso).write (growBss nso) = .ok () nso') :
    allocModObj nso = .ok () nso' := by
  have hmod' : (growBss nso).modSection = some m := hmod
  have hcreate : ModHeader.createModHeader base.toNat m.dynamicAddr m.ehStartAddr m.ehEndAddr
      m.bssEndAddr (growBss nso) = .ok (m.withModObj nso) nso' := by
    rw [← hm]
    unfold ModHeader.withModObj at hwrite ⊢
    exact estate_bind_eq_ok.mpr ⟨_, growBss nso, rfl, estate_bind_eq_ok.mpr ⟨(), nso', hwrite, rfl⟩⟩
  simp only [allocModObj, hbase, hmod', hcreate]

/-- A header that is written apart from the pointer and the table is decoded again. -/
theorem ofNso_overlay_raw {base : UInt32} {info : DynamicInfo} {t : NsoSegmentType} {off : ℕ}
    (hbase : nso.getModAddr = .ok base) (hm : m.baseAddr = base.toNat)
    (hloc : nso.locate base m.raw.length = .ok (t, off))
    (hpointer : base.toNat + 0x1C ≤ 4 ∨ 8 ≤ base.toNat)
    (hdynamic : base.toNat + 0x1C ≤ (uintOfLong m.dynamicAddr).toNat ∨
      (uintOfLong m.dynamicAddr).toNat + 0x200 ≤ base.toNat)
    (hinfo : DynamicInfo.ofNso nso m.dynamicAddr = .ok info) :
    ModHeader.ofNso (nso.overlay t off m.raw) = .ok { m with dynInfo := some info } := by
  have hlen : m.raw.length = 0x1C := m.length_raw
  obtain ⟨-, -, hoff, -, -⟩ := Nso.locate_eq_ok hloc
  have hbase' : (nso.overlay t off m.raw).getModAddr = .ok base := by
    rw [getModAddr_overlay hoff (by omega), hbase]
  have hinfo' : DynamicInfo.ofNso (nso.overlay t off m.raw) m.dynamicAddr = .ok info := by
    rw [dynamicInfo_overlay hoff (by omega), hinfo]
  have hread := Nso.readNso_overlay_same hloc (by rw [hlen]; decide)
  rw [hlen] at hread
  exact ModHeader.ofNso_eq hbase' hm hread hinfo'

/-- Where the header fits, the module object is allocated. -/
theorem exists_modObjAllocated (h : m.Fits nso) (hm : ModHeader.ofNso nso = .ok m)
    (hmod : nso.modSection = some m) :
    ∃ nso' m', allocModObj nso = .ok () nso' ∧ ModHeader.ofNso nso' = .ok m' ∧
      ModObjAllocated nso m nso' m' := by
  obtain ⟨base, buffer, info, hbase, hread, hbaseAddr, hinfo, hdyn⟩ := ModHeader.ofNso_eq_ok hm
  have hgrow : (growBss nso).SameImage nso := nso.sameImage_setBssOrAlign rwdata _
  rw [← hgrow.getModAddr] at hbase
  rw [← hgrow.readNso] at hread
  obtain ⟨nso₁, t, off, hwrite, hsame, hlayout, hloc⟩ := write_of_readNso
    (m := m.withModObj nso) (hgrow.sized h.sized) hbase hread hbaseAddr
  have hlen : (m.withModObj nso).raw.length = 0x1C := ModHeader.length_raw _
  obtain ⟨-, -, hoff, -, -⟩ := Nso.locate_eq_ok hloc
  have hlayout' := (nso₁.layout_overlay t off (m.withModObj nso).raw).trans hlayout
  -- the pointer and the dynamic table are read from bytes the header does not touch
  have hpointer := h.pointer
  have hdynamic := h.dynamic
  rw [hbaseAddr, ModHeader.headerSize] at hpointer hdynamic
  have htable := h.toNat_dynamicAddr hm
  rw [← m.dynamicAddr_withModObj nso] at htable hdynamic hinfo
  have hnew := ofNso_overlay_raw (m := m.withModObj nso)
    (hsame.getModAddr.trans hbase) hbaseAddr hloc (by omega) (by omega)
    (((hsame.trans hgrow).dynamicInfo _).trans hinfo)
  refine ⟨_, _, allocModObj_eq hbase hbaseAddr hmod hwrite, hnew, ?_⟩
  have hstart := h.bssStartAddr_withModObj hm
  have hend := h.bssEndAddr_withModObj hm
  have hobj := m.moduleObjAddr_withModObj nso
  have hold := h.bssEnd
  constructor
  · rfl
  · exact m.dynamicAddr_withModObj nso
  · exact m.ehStartAddr_withModObj nso
  · exact m.ehEndAddr_withModObj nso
  · exact hdyn.symm
  · exact hstart
  · exact hend
  · refine hend.trans ?_
    rw [Nso.endAddress_congr hlayout', h.toNat_endAddress_growBss, hold]
    push_cast
    rfl
  · exact hobj
  · change (m.withModObj nso).bssStartAddr ≤ (m.withModObj nso).moduleObjAddr ∧
      (m.withModObj nso).moduleObjAddr + 0x100 ≤ (m.withModObj nso).bssEndAddr
    omega
  · intro a _ hlt
    change ¬ ((m.withModObj nso).moduleObjAddr ≤ a ∧ _)
    omega
  · intro u k hk
    rw [hbaseAddr, ModHeader.headerSize] at hk
    have haddr := (hsame.trans hgrow).address u
    rw [Nso.getElem?_overlay hoff (by rw [haddr, hlen]; omega), (hsame.trans hgrow).rawData]

end Alloc

end Sp2Module
