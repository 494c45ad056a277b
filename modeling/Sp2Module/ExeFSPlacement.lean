import Sp2Module.ExeFS
import Mathlib.Algebra.Order.BigOperators.Group.List

/-!
# Where modules are placed

A module's address rounds up the sum of the sizes before it, once, while each image also starts at
its own rounded address. `PaddingFits` compares the two paddings, and holds exactly when every
write addressed to a module lands in that module.
-/

namespace Sp2Module

namespace Nso

open NsoSegmentType

/-- The three segments in ascending order from address 0, within 32 bits. -/
structure WellPlaced (nso : Nso) : Prop where
  text_zero : nso.textSegment.address.toNat = 0
  text_le : nso.textSegment.decompressedSize.toNat ≤ nso.rodataSegment.address.toNat
  rodata_le : nso.rodataSegment.address.toNat + nso.rodataSegment.decompressedSize.toNat ≤
    nso.rwdataSegment.address.toNat
  end_lt : nso.rwdataSegment.address.toNat + nso.rwdataSegment.decompressedSize.toNat +
    nso.rwdataSegment.bssOrAlign.toNat < 2 ^ 32

/-- The bytes `[off, off + n)` of the image belong to segment `t`. -/
def RangeIn (nso : Nso) (t : NsoSegmentType) (off n : ℕ) : Prop :=
  (nso.segments t).address.toNat ≤ off ∧
    off + n ≤ (nso.segments t).address.toNat + (nso.segments t).decompressedSize.toNat

namespace WellPlaced

variable {nso : Nso} (h : nso.WellPlaced)
include h

theorem toNat_startAddress : nso.startAddress.toNat = 0 := h.text_zero

theorem toNat_endAddress :
    nso.endAddress.toNat = nso.rwdataSegment.address.toNat +
      nso.rwdataSegment.decompressedSize.toNat + nso.rwdataSegment.bssOrAlign.toNat := by
  have hend := h.end_lt
  rw [Nso.endAddress, UInt32.toNat_add, UInt32.toNat_add]
  omega

theorem segment_end_le (t : NsoSegmentType) :
    (nso.segments t).address.toNat + (nso.segments t).decompressedSize.toNat ≤
      nso.endAddress.toNat := by
  have htext := h.text_zero
  have hle := h.text_le
  have hle' := h.rodata_le
  rw [h.toNat_endAddress]
  simp only [textSegment, rodataSegment, rwdataSegment] at *
  cases t <;> omega

theorem segment_disjoint {t u : NsoSegmentType} {a : ℕ}
    (ht : (nso.segments t).address.toNat ≤ a ∧
      a < (nso.segments t).address.toNat + (nso.segments t).decompressedSize.toNat)
    (hu : (nso.segments u).address.toNat ≤ a ∧
      a < (nso.segments u).address.toNat + (nso.segments u).decompressedSize.toNat) : t = u := by
  have htext := h.text_zero
  have hle := h.text_le
  have hle' := h.rodata_le
  simp only [textSegment, rodataSegment, rwdataSegment] at *
  cases t <;> cases u <;> first | rfl | omega

theorem getAddressSegment {t : NsoSegmentType} {addr : UInt32}
    (hle : (nso.segments t).address.toNat ≤ addr.toNat)
    (hlt : addr.toNat < (nso.segments t).address.toNat + (nso.segments t).decompressedSize.toNat) :
    nso.getAddressSegment addr = some t := by
  have hc : (nso.segments t).Contains addr := by
    rw [NsoSegment.contains_iff]
    have hend := h.segment_end_le t
    have hlt' : nso.endAddress.toNat < 2 ^ 32 := nso.endAddress.toNat_lt
    omega
  cases hu : nso.getAddressSegment addr with
  | none => exact absurd hc (getAddressSegment_eq_none.mp hu t)
  | some u =>
    have hcu := ((nso.segments u).contains_iff addr).mp (getAddressSegment_eq_some hu)
    rw [h.segment_disjoint ⟨hcu.1, hcu.2.1⟩ ⟨hle, hlt⟩]

theorem locate {t : NsoSegmentType} {off n : ℕ} {addr : UInt32} (hs : nso.Sized)
    (haddr : addr.toNat = off) (hn : 0 < n) (hr : nso.RangeIn t off n) :
    nso.locate addr n = .ok (t, off - (nso.segments t).address.toNat) := by
  obtain ⟨hle, hend⟩ := hr
  have hseg : nso.getAddressSegment addr = some t := h.getAddressSegment (by omega) (by omega)
  rw [locate_of_getAddressSegment hseg (by omega) (hs t), haddr]

end WellPlaced

/-- The permission of the page over offset `off` of an image. -/
def pagePerm (nso : Nso) (off : ℤ) : SegPerm :=
  if off < nso.rodataSegment.address.toNat then .rx
  else if off < nso.rwdataSegment.address.toNat then .r
  else .rw

theorem readable_pagePerm (nso : Nso) (off : ℤ) : (nso.pagePerm off).readable = true := by
  unfold pagePerm
  split_ifs <;> rfl

end Nso

namespace ExeFS

open NsoTypeEnum

variable {e : ExeFS} {i j : NsoTypeEnum} {addr : ℤ}

/-! ### Addresses of the slots -/

theorem slotSize_nonneg (e : ExeFS) (i : NsoTypeEnum) : 0 ≤ e.slotSize i := by
  unfold slotSize
  split <;> omega

theorem slotSize_of_nsoAt {nso : Nso} (h : e.nsoAt i = some nso) :
    e.slotSize i = nso.endAddress.toNat := by
  simp only [slotSize, h]

theorem sizeBefore_add_slotSize (e : ExeFS) (i : NsoTypeEnum) :
    e.sizeBefore i + e.slotSize i = ((all.take (i.index + 1)).map e.slotSize).sum := by
  rw [sizeBefore, List.take_add_one, getElem?_all]
  simp

theorem sum_take_mono (e : ExeFS) {m n : ℕ} (h : m ≤ n) :
    ((all.take m).map e.slotSize).sum ≤ ((all.take n).map e.slotSize).sum := by
  obtain ⟨k, rfl⟩ := Nat.exists_eq_add_of_le h
  rw [List.take_add, List.map_append, List.sum_append]
  have hnonneg : 0 ≤ (((all.drop m).take k).map e.slotSize).sum := by
    apply List.sum_nonneg
    intro x hx
    obtain ⟨j, -, rfl⟩ := List.mem_map.mp hx
    exact e.slotSize_nonneg j
  omega

theorem sizeBefore_add_le (e : ExeFS) (h : i.index < j.index) :
    e.sizeBefore i + e.slotSize i ≤ e.sizeBefore j := by
  rw [sizeBefore_add_slotSize]
  exact e.sum_take_mono h

theorem getNsoAddress_mono (e : ExeFS) (h : i.index ≤ j.index) :
    e.getNsoAddress i ≤ e.getNsoAddress j := alignUp_mono (by decide) (e.sum_take_mono h)

theorem getNsoAddress_nonneg (e : ExeFS) (i : NsoTypeEnum) : 0 ≤ e.getNsoAddress i :=
  alignUp_nonneg (by decide) (by
    have h := e.sum_take_mono (Nat.zero_le i.index)
    simpa [sizeBefore] using h)

theorem getNsoAddress_eq (e : ExeFS) (i : NsoTypeEnum) :
    e.getNsoAddress i = e.sizeBefore i + alignPad 0x1000 (e.sizeBefore i) := by
  simp [getNsoAddress, alignPad]

/-! ### The first module over an address -/

/-- Occupied slots hold distinct objects. -/
def Distinct (e : ExeFS) : Prop := ∀ i j r, e.nsos i = some r → e.nsos j = some r → i = j

structure WellFormed (e : ExeFS) : Prop where
  distinct : e.Distinct
  placed : ∀ i nso, e.nsoAt i = some nso → nso.WellPlaced
  sized : ∀ i nso, e.nsoAt i = some nso → nso.Sized

/-- Slot `i` is the first one whose module is loaded over `addr`. -/
def FirstOver (e : ExeFS) (addr : ℤ) (i : NsoTypeEnum) : Prop :=
  e.InImage addr i ∧ ∀ j, j.index < i.index → ¬ e.InImage addr j

theorem FirstOver.split (h : e.FirstOver addr i) :
    ∃ as bs, all = as ++ i :: bs ∧ (∀ j ∈ as, j.index < i.index) ∧
      ∀ j ∈ as, ¬ e.InImage addr j := by
  obtain ⟨as, bs, hall⟩ := List.append_of_mem (mem_all i)
  have hsorted := sorted_all
  rw [hall, List.pairwise_append] at hsorted
  have hlt : ∀ j ∈ as, j.index < i.index := fun j hj => hsorted.2.2 j hj i List.mem_cons_self
  exact ⟨as, bs, hall, hlt, fun j hj => h.2 j (hlt j hj)⟩

theorem find?_inImage_iff :
    (all.find? fun i => e.InImage addr i) = some i ↔ e.FirstOver addr i := by
  constructor
  · intro h
    refine ⟨find?_inImage_eq_some h, ?_⟩
    obtain ⟨-, as, bs, hall, has⟩ := List.find?_eq_some_iff_append.mp h
    intro j hj hin
    have hsorted := sorted_all
    rw [hall, List.pairwise_append, List.pairwise_cons] at hsorted
    have hmem := mem_all j
    rw [hall, List.mem_append, List.mem_cons] at hmem
    rcases hmem with hmem | rfl | hmem
    · simpa [hin] using has j hmem
    · omega
    · have hlt := hsorted.2.1.1 j hmem
      omega
  · intro h
    obtain ⟨as, bs, hall, -, has⟩ := h.split
    rw [List.find?_eq_some_iff_append]
    exact ⟨by simpa using h.1, as, bs, hall, by simpa using has⟩

/-- The pages of a module whose segments are in place. -/
theorem mem_modulePages {nso : Nso} {acc : ℤ} {page : MemPage} (hp : nso.WellPlaced) :
    page ∈ e.modulePages i nso acc ↔
      (acc < e.getNsoAddress i ∧ page = ⟨acc, e.getNsoAddress i - acc, .none⟩) ∨
      page = ⟨e.getNsoAddress i, nso.rodataSegment.address.toNat, .rx⟩ ∨
      page = ⟨e.getNsoAddress i + nso.rodataSegment.address.toNat,
        nso.rwdataSegment.address.toNat - nso.rodataSegment.address.toNat, .r⟩ ∨
      page = ⟨e.getNsoAddress i + nso.rwdataSegment.address.toNat,
        nso.endAddress.toNat - nso.rwdataSegment.address.toNat, .rw⟩ := by
  simp only [modulePages, hp.toNat_startAddress, Nat.cast_zero, add_zero, add_sub_cancel_left,
    add_sub_add_left_eq_sub, sub_pos, List.mem_append, List.mem_cons, List.not_mem_nil, or_false]
  refine or_congr ?_ Iff.rfl
  split_ifs with hpos <;> simp [hpos]

theorem find?_modulePages_of_not_inImage {nso : Nso} (acc : ℤ) (hnso : e.nsoAt i = some nso)
    (hp : nso.WellPlaced) (hbase : e.getNsoAddress i ≤ addr) (hout : ¬ e.InImage addr i) :
    ∀ page ∈ e.modulePages i nso acc, ¬ page.Contains addr := by
  have hend := hp.toNat_endAddress
  have hle := hp.text_le
  have hle' := hp.rodata_le
  have hge : e.getNsoAddress i + nso.endAddress.toNat ≤ addr := by
    by_contra hlt
    exact hout ((e.inImage_iff addr i).mpr ⟨nso, hnso, by rw [hp.toNat_startAddress]; omega,
      by omega⟩)
  intro page hpage
  rw [MemPage.contains_iff]
  rcases (mem_modulePages hp).mp hpage with ⟨hpos, rfl⟩ | rfl | rfl | rfl <;> dsimp only <;> omega

theorem find?_modulePages_of_inImage {nso : Nso} (acc : ℤ) (hnso : e.nsoAt i = some nso)
    (hp : nso.WellPlaced) (hin : e.InImage addr i) :
    ∃ page, (e.modulePages i nso acc).find? (fun page => page.Contains addr) = some page ∧
      page.permission = nso.pagePerm (addr - e.getNsoAddress i) := by
  obtain ⟨nso', hnso', hle, hlt⟩ := (e.inImage_iff addr i).mp hin
  obtain rfl : nso = nso' := Option.some.inj (hnso.symm.trans hnso')
  rw [hp.toNat_startAddress] at hle
  have hgap : ∀ page ∈ (if 0 < e.getNsoAddress i + ((0 : ℕ) : ℤ) - acc then
      [(⟨acc, e.getNsoAddress i + ((0 : ℕ) : ℤ) - acc, .none⟩ : MemPage)] else []),
      ¬ page.Contains addr := by
    intro page hpage
    split_ifs at hpage
    · rw [List.mem_singleton] at hpage
      subst hpage
      simp only [MemPage.contains_iff]
      omega
    · simp at hpage
  simp only [modulePages, hp.toNat_startAddress, List.find?_append]
  rw [List.find?_eq_none.mpr (by simpa using hgap)]
  rw [Option.none_or]
  unfold Nso.pagePerm
  by_cases hrx : addr - e.getNsoAddress i < nso.rodataSegment.address.toNat
  · refine ⟨_, List.find?_cons_of_pos ?_, (if_pos hrx).symm⟩
    simp only [decide_eq_true_eq, MemPage.contains_iff]
    omega
  · rw [List.find?_cons_of_neg (by simp only [decide_eq_true_eq, MemPage.contains_iff]; omega),
      if_neg hrx]
    by_cases hr : addr - e.getNsoAddress i < nso.rwdataSegment.address.toNat
    · refine ⟨_, List.find?_cons_of_pos ?_, (if_pos hr).symm⟩
      simp only [decide_eq_true_eq, MemPage.contains_iff]
      omega
    · rw [List.find?_cons_of_neg (by simp only [decide_eq_true_eq, MemPage.contains_iff]; omega),
        if_neg hr]
      refine ⟨_, List.find?_cons_of_pos ?_, rfl⟩
      simp only [decide_eq_true_eq, MemPage.contains_iff]
      omega

/-- Gap pages and the pages of earlier modules do not hide the first module over an address. -/
theorem getAddressPage_of_firstOver {nso : Nso}
    (hp : ∀ i nso, e.nsoAt i = some nso → nso.WellPlaced) (hnso : e.nsoAt i = some nso)
    (h : e.FirstOver addr i) :
    ∃ page, e.getAddressPage addr = some page ∧
      page.permission = nso.pagePerm (addr - e.getNsoAddress i) := by
  obtain ⟨as, bs, hall, hlt, has⟩ := h.split
  have hbase : ∀ j ∈ as, e.getNsoAddress j ≤ addr := by
    obtain ⟨nso', -, hle, -⟩ := (e.inImage_iff addr i).mp h.1
    intro j hj
    exact (e.getNsoAddress_mono (hlt j hj).le).trans (by omega)
  rw [getAddressPage, getMemoryMap, hall]
  clear hall hlt
  generalize (0 : ℤ) = acc
  induction as generalizing acc with
  | nil =>
    obtain ⟨page, hfind, hperm⟩ :=
      find?_modulePages_of_inImage acc hnso (hp i nso hnso) h.1
    refine ⟨page, ?_, hperm⟩
    simp only [List.nil_append, memoryMapFrom, hnso, List.find?_append, hfind, Option.some_or]
  | cons j as ih =>
    have ih' := ih (fun k hk => has k (List.mem_cons_of_mem j hk))
      (fun k hk => hbase k (List.mem_cons_of_mem j hk))
    simp only [List.cons_append, memoryMapFrom]
    cases hj : e.nsoAt j with
    | none => exact ih' acc
    | some nsoj =>
      have hnone := find?_modulePages_of_not_inImage acc hj (hp j nsoj hj)
        (hbase j List.mem_cons_self) (has j List.mem_cons_self)
      simp only [List.find?_append]
      rw [List.find?_eq_none.mpr (by simpa using hnone)]
      exact ih' _

/-- A write at an address goes to the first module over it. -/
theorem locate_of_firstOver {r : NsoRef} {n : ℕ}
    (hp : ∀ i nso, e.nsoAt i = some nso → nso.WellPlaced) (hr : e.nsos i = some r)
    (h : e.FirstOver addr i) :
    e.locate addr n = ((e.objects r).locate (uintOfLong (addr - e.getNsoAddress i)) n).map
      fun p => some (r, p) := by
  have hnso : e.nsoAt i = some (e.objects r) := nsoAt_eq_some.mpr ⟨r, hr, rfl⟩
  obtain ⟨page, hpage, hperm⟩ := getAddressPage_of_firstOver hp hnso h
  have hread : page.permission.readable = true := by rw [hperm, Nso.readable_pagePerm]
  simp only [locate, hpage, hread, if_true, find?_inImage_iff.mpr h, hr]

theorem exists_firstOver (h : e.InImage addr i) :
    ∃ j, j.index ≤ i.index ∧ e.FirstOver addr j := by
  cases hf : all.find? fun i => e.InImage addr i with
  | none => exact absurd h (by simpa using List.find?_eq_none.mp hf i (mem_all i))
  | some j =>
    have hj := find?_inImage_iff.mp hf
    refine ⟨j, ?_, hj⟩
    by_contra hlt
    exact hj.2 i (by omega) h

/-! ### Patches land where they are addressed -/

/-- A write inside one segment of the module in slot `T`, addressed through the slot, succeeds and
changes exactly these bytes: no other segment and no other object. -/
def PatchesLand (e : ExeFS) : Prop :=
  ∀ T r, e.nsos T = some r → ∀ t off data, data ≠ [] →
    (e.objects r).RangeIn t off data.length →
    ∃ e', writeExeFs (e.getNsoAddress T + off) data e = .ok () e' ∧
      ((e'.objects r).segments t).rawData =
        overwrite ((e.objects r).segments t).rawData
          (off - ((e.objects r).segments t).address.toNat) data ∧
      (∀ u, u ≠ t → (e'.objects r).segments u = (e.objects r).segments u) ∧
      ∀ r', r' ≠ r → e'.objects r' = e.objects r'

/-- The padding that rounds up the sizes before a module `i` is made up for before the first byte of
each segment of a later module `T`: by the modules between them, by the padding before `T` or by
the address of the segment. -/
def PaddingFits (e : ExeFS) : Prop :=
  ∀ i T nso, i.index < T.index → e.nsoAt T = some nso →
    ∀ t, 0 < (nso.segments t).decompressedSize.toNat →
      alignPad 0x1000 (e.sizeBefore i) ≤
        (e.sizeBefore T - (e.sizeBefore i + e.slotSize i)) + alignPad 0x1000 (e.sizeBefore T) +
          (nso.segments t).address.toNat

/-- With the padding in place, a byte of a segment is under no earlier module. -/
theorem PaddingFits.firstOver {T : NsoTypeEnum} {nso : Nso} {t : NsoSegmentType} {off n : ℕ}
    (h : e.PaddingFits) (hp : ∀ i nso, e.nsoAt i = some nso → nso.WellPlaced)
    (hT : e.nsoAt T = some nso) (hn : 0 < n) (hr : nso.RangeIn t off n) :
    e.FirstOver (e.getNsoAddress T + off) T := by
  have hwp := hp T nso hT
  have hle := hr.1
  have hend := hr.2
  constructor
  · rw [inImage_iff]
    have hseg := hwp.segment_end_le t
    exact ⟨nso, hT, by rw [hwp.toNat_startAddress]; omega, by omega⟩
  · intro j hj hin
    obtain ⟨nsoj, hnsoj, -, hlt⟩ := (e.inImage_iff _ j).mp hin
    have hfit := h j T nso hj hT t (by omega)
    rw [slotSize_of_nsoAt hnsoj] at hfit
    rw [getNsoAddress_eq, getNsoAddress_eq] at hlt
    omega

theorem PaddingFits.patchesLand (hwf : e.WellFormed) (h : e.PaddingFits) : e.PatchesLand := by
  intro T r hr t off data hdata hrange
  have hnso : e.nsoAt T = some (e.objects r) := nsoAt_eq_some.mpr ⟨r, hr, rfl⟩
  have hwp := hwf.placed T _ hnso
  have hpos : 0 < data.length := List.length_pos_iff.mpr hdata
  have hfirst := h.firstOver hwf.placed hnso hpos hrange
  have hoff : (uintOfLong (e.getNsoAddress T + off - e.getNsoAddress T)).toNat = off := by
    have hend := (hwp.segment_end_le t).trans_lt (e.objects r).endAddress.toNat_lt
    have hle := hrange.2
    have hcast := toNat_uintOfLong_of_lt (x := (off : ℤ)) (by omega) (by omega)
    rw [add_sub_cancel_left]
    omega
  have hloc := locate_of_firstOver (n := data.length) hwf.placed hr hfirst
  rw [hwp.locate (hwf.sized T _ hnso) hoff hpos hrange] at hloc
  refine ⟨e.overlay r t (off - ((e.objects r).segments t).address.toNat) data, ?_, ?_, ?_, ?_⟩
  · rw [writeExeFs_eq, hloc]
    rfl
  · simp [Nso.overlay, NsoSegment.overlay]
  · intro u hu
    simp [Nso.overlay, Nso.segments_setSegment_of_ne hu]
  · intro r' hr'
    exact objects_overlay_of_ne hr' t _ data

/-- Where the padding does not fit, the first byte of the segment is under an earlier module, and a
patch that changes this byte changes something else instead. -/
theorem PatchesLand.paddingFits (hwf : e.WellFormed) (h : e.PatchesLand) : e.PaddingFits := by
  intro i T nso hiT hT t hsize
  by_contra hover
  obtain ⟨r, hr, rfl⟩ := nsoAt_eq_some.mp hT
  have hle := e.getNsoAddress_mono hiT.le
  have hi := e.getNsoAddress_eq i
  have hT' := e.getNsoAddress_eq T
  set seg := (e.objects r).segments t
  have hin : e.InImage (e.getNsoAddress T + (seg.address.toNat : ℤ)) i := by
    rw [inImage_iff]
    cases hnsoi : e.nsoAt i with
    | none =>
      have hzero : e.slotSize i = 0 := by simp only [slotSize, hnsoi]
      omega
    | some nsoi =>
      rw [slotSize_of_nsoAt hnsoi] at hover
      exact ⟨nsoi, rfl, by rw [(hwf.placed i nsoi hnsoi).toNat_startAddress]; omega, by omega⟩
  obtain ⟨j, hji, hfirst⟩ := exists_firstOver hin
  obtain ⟨rj, hrj⟩ := hfirst.1.exists_ref
  have hne : r ≠ rj := by
    rintro rfl
    rw [hwf.distinct j T r hrj hr] at hji
    omega
  have hlen : 0 < seg.rawData.length := by
    rw [hwf.sized T _ hT t]
    exact hsize
  obtain ⟨e', hwrite, hraw, -, -⟩ := h T r hr t seg.address.toNat [seg.rawData[0] + 1] (by simp)
    ⟨le_rfl, Nat.add_le_add_left hsize _⟩
  rw [writeExeFs_eq, locate_of_firstOver hwf.placed hrj hfirst] at hwrite
  cases hloc : (e.objects rj).locate
      (uintOfLong (e.getNsoAddress T + (seg.address.toNat : ℤ) - e.getNsoAddress j))
      [seg.rawData[0] + 1].length with
  | error x =>
    rw [hloc] at hwrite
    cases hwrite
  | ok p =>
    rw [hloc] at hwrite
    cases hwrite
    rw [objects_overlay_of_ne hne, Nat.sub_self] at hraw
    have hbyte := congrArg (fun l => l[0]?) hraw
    simp only [getElem?_overwrite] at hbyte
    rw [List.getElem?_eq_getElem hlen] at hbyte
    simp at hbyte

/-- Every patch addressed to a module lands in it exactly when the padding fits. -/
theorem patchesLand_iff_paddingFits (hwf : e.WellFormed) : e.PatchesLand ↔ e.PaddingFits :=
  ⟨fun h => h.paddingFits hwf, fun h => h.patchesLand hwf⟩

end ExeFS

/-! ### Modules that consist of a text segment -/

/-- A module whose image is its text segment. -/
def textNso (data : Bytes) : Nso where
  flag := 0
  buildId := List.replicate 0x20 0
  segments
    | .text => .create 0 data 0
    | .rodata => .create (UInt32.ofNat data.length) [] 0
    | .rwdata => .create (UInt32.ofNat data.length) [] 0
  dynamicStringTable := ⟨0, 0⟩
  dynamicSymbolTable := ⟨0, 0⟩
  modSection := none

theorem wellPlaced_textNso (data : Bytes) : (textNso data).WellPlaced where
  text_zero := rfl
  text_le := le_rfl
  rodata_le := le_rfl
  end_lt := (UInt32.ofNat data.length).toNat_lt

theorem sized_textNso {data : Bytes} (h : data.length < 2 ^ 32) : (textNso data).Sized := by
  intro t
  cases t with
  | text => exact (UInt32.toNat_ofNat_of_lt' h).symm
  | rodata => rfl
  | rwdata => rfl

/-- The first `n` slots hold objects of their own, all of them equal to `nso`. -/
def ExeFS.firstSlots (n : ℕ) (nso : Nso) : ExeFS where
  objects _ := nso
  nsos i := if i.index < n then some i.index else none
  npdm := none

namespace ExeFS

theorem nsoAt_firstSlots (n : ℕ) (nso : Nso) (i : NsoTypeEnum) :
    (firstSlots n nso).nsoAt i = if i.index < n then some nso else none := by
  simp only [nsoAt, firstSlots]
  split_ifs <;> rfl

theorem wellFormed_firstSlots (n : ℕ) {nso : Nso} (hp : nso.WellPlaced) (hs : nso.Sized) :
    (firstSlots n nso).WellFormed := by
  have hnso : ∀ i nso', (firstSlots n nso).nsoAt i = some nso' → nso' = nso := by
    intro i nso' h
    rw [nsoAt_firstSlots] at h
    split_ifs at h
    exact (Option.some.inj h).symm
  refine ⟨?_, fun i nso' h => hnso i nso' h ▸ hp, fun i nso' h => hnso i nso' h ▸ hs⟩
  intro i j r hi hj
  simp only [firstSlots] at hi hj
  split_ifs at hi hj
  exact NsoTypeEnum.index_injective ((Option.some.inj hi).trans (Option.some.inj hj).symm)

/-- Three modules of one byte: the second and the third both start at `0x1000`. -/
theorem not_patchesLand_firstSlots_three :
    (firstSlots 3 (textNso [0])).WellFormed ∧ ¬ (firstSlots 3 (textNso [0])).PatchesLand := by
  have hwf := wellFormed_firstSlots 3 (wellPlaced_textNso [0]) (sized_textNso (by decide))
  refine ⟨hwf, fun h => ?_⟩
  have hfit := h.paddingFits hwf .main .subsdk0 (textNso [0]) (by decide) rfl .text (by decide)
  revert hfit
  decide

theorem patchesLand_firstSlots_two : (firstSlots 2 (textNso [0])).PatchesLand := by
  apply (patchesLand_iff_paddingFits
    (wellFormed_firstSlots 2 (wellPlaced_textNso [0]) (sized_textNso (by decide)))).mpr
  intro i T nso hiT hT t _
  rw [nsoAt_firstSlots] at hT
  have hi : (firstSlots 2 (textNso [0])).sizeBefore i = 0 := by
    have hzero : i.index = 0 := by split_ifs at hT with hlt; omega
    simp [sizeBefore, hzero]
  have hle := (firstSlots 2 (textNso [0])).sizeBefore_add_le hiT
  have hpad := alignPad_nonneg (n := 0x1000) (a := (firstSlots 2 (textNso [0])).sizeBefore T)
    (by decide)
  have hzero : alignPad 0x1000 0 = 0 := by decide
  rw [hi] at hle ⊢
  omega

end ExeFS
end Sp2Module
