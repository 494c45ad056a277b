import Sp2Module.ExeFSPlacement

/-!
# Address lookups

The page over an address is searched in the memory map, the module and its slot are searched in
the slots. The lookups agree whatever slots are in use, also where the images of two modules
overlap: every page but the gaps lies over its own module, and the first module over an address is
not hidden by the pages before its own.
-/

namespace Sp2Module

namespace Nso

open NsoSegmentType

/-- The page over a byte of a segment has the permission of the segment. -/
theorem WellPlaced.pagePerm_eq {nso : Nso} {u : NsoSegmentType} {off : ℕ} {addr : UInt32}
    (h : nso.WellPlaced) (haddr : addr.toNat = off) (hr : nso.RangeIn u off 1) :
    nso.pagePerm off = nso.getAddressPerm addr := by
  have hle := hr.1
  have hlt := hr.2
  have hseg : nso.getAddressSegment addr = some u :=
    h.getAddressSegment (by omega) (by omega)
  have htext := h.text_le
  have hrodata := h.rodata_le
  have hzero := h.text_zero
  rw [getAddressPerm, hseg, pagePerm]
  simp only [textSegment] at htext hzero
  cases u with
  | text => rw [if_pos (by omega)]
  | rodata =>
    change nso.rodataSegment.address.toNat ≤ off at hle
    change _ ≤ nso.rodataSegment.address.toNat + nso.rodataSegment.decompressedSize.toNat at hlt
    rw [if_neg (by omega), if_pos (by omega)]
  | rwdata =>
    change nso.rwdataSegment.address.toNat ≤ off at hle
    rw [if_neg (by omega), if_neg (by omega)]

end Nso

namespace ExeFS

open NsoTypeEnum

variable {e : ExeFS} {i : NsoTypeEnum} {addr : ℤ}

/-- The pages of a module, its gap apart, lie over the module. -/
theorem inImage_of_mem_modulePages {nso : Nso} {acc : ℤ} {page : MemPage}
    (hnso : e.nsoAt i = some nso) (hp : nso.WellPlaced) (hmem : page ∈ e.modulePages i nso acc)
    (hc : page.Contains addr) (hperm : page.permission ≠ .none) : e.InImage addr i := by
  have hend := hp.toNat_endAddress
  have hle := hp.text_le
  have hle' := hp.rodata_le
  rw [MemPage.contains_iff] at hc
  rw [inImage_iff]
  refine ⟨nso, hnso, ?_⟩
  rw [hp.toNat_startAddress]
  rcases (mem_modulePages hp).mp hmem with ⟨hpos, rfl⟩ | rfl | rfl | rfl
  · exact absurd rfl hperm
  all_goals
    dsimp only at hc
    omega

/-- Every page of the map is one of a module in use. -/
theorem exists_modulePages {page : MemPage} (is : List NsoTypeEnum) (acc : ℤ)
    (hmem : page ∈ e.memoryMapFrom is acc) :
    ∃ i nso acc', e.nsoAt i = some nso ∧ page ∈ e.modulePages i nso acc' := by
  induction is generalizing acc with
  | nil => simp [memoryMapFrom] at hmem
  | cons i is ih =>
    rw [memoryMapFrom] at hmem
    cases hnso : e.nsoAt i with
    | none =>
      rw [hnso] at hmem
      exact ih acc hmem
    | some nso =>
      rw [hnso] at hmem
      rcases List.mem_append.mp hmem with hmod | hrest
      · exact ⟨i, nso, acc, hnso, hmod⟩
      · exact ih _ hrest

theorem exists_inImage_of_mem {page : MemPage}
    (hp : ∀ i nso, e.nsoAt i = some nso → nso.WellPlaced) (hmem : page ∈ e.getMemoryMap)
    (hc : page.Contains addr) (hperm : page.permission ≠ .none) : ∃ i, e.InImage addr i := by
  obtain ⟨i, nso, acc, hnso, hmod⟩ := exists_modulePages all 0 hmem
  exact ⟨i, inImage_of_mem_modulePages hnso (hp i nso hnso) hmod hc hperm⟩

theorem getAddressPage_eq_some {page : MemPage} (h : e.getAddressPage addr = some page) :
    page ∈ e.getMemoryMap ∧ page.Contains addr :=
  ⟨List.mem_of_find?_eq_some h, by simpa using List.find?_some h⟩

theorem getAddressPage_bounds {page : MemPage} (h : e.getAddressPage addr = some page) :
    page.address ≤ addr ∧ addr < page.address + page.size :=
  (page.contains_iff addr).mp (getAddressPage_eq_some h).2

/-- Where a module is loaded, the page is one of its own and gives some access. -/
theorem exists_page_of_inImage (hp : ∀ i nso, e.nsoAt i = some nso → nso.WellPlaced)
    (h : e.InImage addr i) :
    ∃ page, e.getAddressPage addr = some page ∧ page.permission ≠ .none := by
  obtain ⟨j, -, hfirst⟩ := exists_firstOver h
  obtain ⟨nso, hnso, -⟩ := (e.inImage_iff addr j).mp hfirst.1
  obtain ⟨page, hpage, hperm⟩ := getAddressPage_of_firstOver hp hnso hfirst
  refine ⟨page, hpage, fun hnone => ?_⟩
  have hread := nso.readable_pagePerm (addr - e.getNsoAddress j)
  rw [← hperm, hnone] at hread
  cases hread

theorem getAddressNso_eq_none : e.getAddressNso addr = none ↔ ∀ i, ¬ e.InImage addr i := by
  unfold getAddressNso
  constructor
  · intro h i hin
    obtain ⟨j, -, hfirst⟩ := exists_firstOver hin
    obtain ⟨r, hr⟩ := hfirst.1.exists_ref
    rw [find?_inImage_iff.mpr hfirst, Option.bind_some, hr] at h
    cases h
  · intro h
    rw [List.find?_eq_none.mpr (by simpa using h), Option.bind_none]

theorem getAddressNso_eq_some {r : NsoRef} :
    e.getAddressNso addr = some r ↔ ∃ i, e.FirstOver addr i ∧ e.nsos i = some r := by
  simp only [getAddressNso, Option.bind_eq_some_iff, find?_inImage_iff]

theorem getAddressNsoType_eq_ok {t : NsoTypeEnum} :
    e.getAddressNsoType addr = .ok t ↔ e.FirstOver addr t := by
  unfold getAddressNsoType
  rw [← find?_inImage_iff]
  cases all.find? fun i => e.InImage addr i <;> simp

theorem getAddressNsoType_eq_error {x : Exception} (h : e.getAddressNsoType addr = .error x) :
    ∀ i, ¬ e.InImage addr i := by
  intro i hin
  obtain ⟨j, -, hfirst⟩ := exists_firstOver hin
  rw [getAddressNsoType_eq_ok.mpr hfirst] at h
  cases h

/-- No module is loaded where there is no page, and in the gaps. -/
theorem getAddressNso_eq_none_iff (hp : ∀ i nso, e.nsoAt i = some nso → nso.WellPlaced) :
    e.getAddressNso addr = none ↔ e.getAddressPage addr = none ∨
      ∃ page, e.getAddressPage addr = some page ∧ page.permission = .none := by
  rw [getAddressNso_eq_none]
  constructor
  · intro hnone
    cases hpage : e.getAddressPage addr with
    | none => exact Or.inl rfl
    | some page =>
      refine Or.inr ⟨page, rfl, ?_⟩
      by_contra hperm
      obtain ⟨hmem, hc⟩ := getAddressPage_eq_some hpage
      obtain ⟨i, hin⟩ := exists_inImage_of_mem hp hmem hc hperm
      exact hnone i hin
  · intro hgap i hin
    obtain ⟨page, hpage, hperm⟩ := exists_page_of_inImage hp hin
    rcases hgap with hnone | ⟨page', hpage', hperm'⟩
    · rw [hnone] at hpage
      cases hpage
    · rw [hpage'] at hpage
      cases hpage
      exact hperm hperm'

theorem getAddressNsoType_eq_ok_iff (hd : e.Distinct) (t : NsoTypeEnum) :
    e.getAddressNsoType addr = .ok t ↔ ∃ r, e.getAddressNso addr = some r ∧ e.nsos t = some r := by
  rw [getAddressNsoType_eq_ok]
  constructor
  · intro hfirst
    obtain ⟨r, hr⟩ := hfirst.1.exists_ref
    exact ⟨r, getAddressNso_eq_some.mpr ⟨t, hfirst, hr⟩, hr⟩
  · rintro ⟨r, hnso, hr⟩
    obtain ⟨i, hfirst, hi⟩ := getAddressNso_eq_some.mp hnso
    rwa [hd t i r hr hi]

theorem getAddressNsoType_throws_iff (e : ExeFS) (addr : ℤ) :
    (∃ x, e.getAddressNsoType addr = .error x) ↔ e.getAddressNso addr = none := by
  rw [getAddressNso_eq_none]
  constructor
  · rintro ⟨x, hx⟩
    exact getAddressNsoType_eq_error hx
  · intro hnone
    cases htype : e.getAddressNsoType addr with
    | error x => exact ⟨x, rfl⟩
    | ok t => exact absurd (getAddressNsoType_eq_ok.mp htype).1 (hnone t)

/-- Over a byte of a segment the page has the permission that the module gives it. -/
theorem FirstOver.page_permission (hfirst : e.FirstOver addr i)
    (hp : ∀ i nso, e.nsoAt i = some nso → nso.WellPlaced) {nso : Nso} {off : ℕ}
    {u : NsoSegmentType} (hnso : e.nsoAt i = some nso) (hoff : addr - e.getNsoAddress i = off)
    (hin : nso.RangeIn u off 1) :
    ∃ page, e.getAddressPage addr = some page ∧
      page.permission = nso.getAddressPerm (uintOfLong (addr - e.getNsoAddress i)) := by
  have hwp := hp i nso hnso
  obtain ⟨page, hpage, hperm⟩ := getAddressPage_of_firstOver hp hnso hfirst
  have hend := (hwp.segment_end_le u).trans_lt nso.endAddress.toNat_lt
  have hlt := hin.2
  have hcast := toNat_uintOfLong_of_lt (x := (off : ℤ)) (by omega) (by omega)
  refine ⟨page, hpage, ?_⟩
  rw [hperm, hoff]
  exact hwp.pagePerm_eq (by omega) hin

/-- The three lookups say the same about an address. -/
structure LookupsAgree (e : ExeFS) (addr : ℤ) : Prop where
  null_iff : e.getAddressNso addr = none ↔
    e.getAddressPage addr = none ∨
      ∃ page, e.getAddressPage addr = some page ∧ page.permission = .none
  type_iff : ∀ t, e.getAddressNsoType addr = .ok t ↔
    ∃ r, e.getAddressNso addr = some r ∧ e.nsos t = some r
  throws_iff : (∃ x, e.getAddressNsoType addr = .error x) ↔ e.getAddressNso addr = none
  permission : ∀ t r (off : ℕ) u, e.getAddressNsoType addr = .ok t → e.nsos t = some r →
    addr - e.getNsoAddress t = off → (e.objects r).RangeIn u off 1 →
    ∃ page, e.getAddressPage addr = some page ∧
      page.permission = (e.objects r).getAddressPerm (uintOfLong (addr - e.getNsoAddress t))

theorem lookupsAgree (hd : e.Distinct) (hp : ∀ i nso, e.nsoAt i = some nso → nso.WellPlaced)
    (addr : ℤ) : e.LookupsAgree addr where
  null_iff := getAddressNso_eq_none_iff hp
  type_iff := getAddressNsoType_eq_ok_iff hd
  throws_iff := e.getAddressNsoType_throws_iff addr
  permission _ r _ _ htype hr hoff hin :=
    (getAddressNsoType_eq_ok.mp htype).page_permission hp (nsoAt_eq_some.mpr ⟨r, hr, rfl⟩) hoff hin

/-- The last two of these modules overlap: neither size is a multiple of a page. -/
theorem lookupsAgree_firstSlots_three : (firstSlots 3 (textNso [0, 0])).LookupsAgree 0x1001 :=
  have hwf := wellFormed_firstSlots 3 (wellPlaced_textNso [0, 0]) (sized_textNso (by decide))
  lookupsAgree hwf.distinct hwf.placed 0x1001

end ExeFS
end Sp2Module
