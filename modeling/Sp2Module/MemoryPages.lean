import Sp2Module.AddressLookups

/-!
# The pages of the memory map

Where the images of the modules do not overlap, an address is on one page only. A gap is smaller
than `0x1000` and ends at a multiple of it; any other page begins with a segment and meets no other
segment.
-/

namespace Sp2Module.ExeFS

open NsoTypeEnum

variable {e : ExeFS} {i : NsoTypeEnum} {is : List NsoTypeEnum} {page page' : MemPage}
  {a acc S B : ℤ}

/-- The slots `is` come last, and the modules before them have the total size `S`. -/
def Suffix (e : ExeFS) (is : List NsoTypeEnum) (S : ℤ) : Prop :=
  ∃ as, all = as ++ is ∧ S = (as.map e.slotSize).sum

theorem suffix_all (e : ExeFS) : e.Suffix all 0 := ⟨[], rfl, rfl⟩

theorem Suffix.cons (h : e.Suffix (i :: is) S) : e.Suffix is (S + e.slotSize i) := by
  obtain ⟨as, hall, rfl⟩ := h
  exact ⟨as ++ [i], by simpa using hall, by simp⟩

theorem Suffix.getNsoAddress (h : e.Suffix (i :: is) S) : e.getNsoAddress i = alignUp 0x1000 S := by
  obtain ⟨as, hall, rfl⟩ := h
  have hi := getElem?_all i
  have has : all[as.length]? = some i := by rw [hall]; simp
  have hlt : i.index < all.length := by
    by_contra hge
    rw [List.getElem?_eq_none (by omega)] at hi
    cases hi
  have hindex : i.index = as.length := (List.getElem?_inj hlt nodup_all).mp (hi.trans has.symm)
  rw [ExeFS.getNsoAddress, sizeBefore, hindex, hall, List.take_left]

theorem Suffix.index_lt (h : e.Suffix (i :: is) S) : ∀ j ∈ is, i.index < j.index := by
  obtain ⟨as, hall, -⟩ := h
  have hsorted := sorted_all
  rw [hall, List.pairwise_append, List.pairwise_cons] at hsorted
  exact hsorted.2.1.1

/-- A gap lies between a rounded address and what it was rounded from. -/
theorem gap_of_mem_memoryMapFrom (hp : ∀ i nso, e.nsoAt i = some nso → nso.WellPlaced)
    (hs : e.Suffix is S) (hacc : S ≤ acc) (hmem : page ∈ e.memoryMapFrom is acc)
    (hperm : page.permission.readable = false) :
    page.size < 0x1000 ∧ 0x1000 ∣ page.address + page.size := by
  induction is generalizing S acc with
  | nil => simp [memoryMapFrom] at hmem
  | cons i is ih =>
    have hbase := hs.getNsoAddress
    rw [memoryMapFrom] at hmem
    cases hnso : e.nsoAt i with
    | none =>
      rw [hnso] at hmem
      have hzero : e.slotSize i = 0 := by simp only [slotSize, hnso]
      exact ih hs.cons (by omega) hmem
    | some nso =>
      rw [hnso] at hmem
      have hle := le_alignUp (n := 0x1000) (a := S) (by decide)
      have hlt := alignUp_lt (n := 0x1000) (a := S) (by decide)
      rcases List.mem_append.mp hmem with hmod | hrest
      · rcases (mem_modulePages (hp i nso hnso)).mp hmod with ⟨hpos, rfl⟩ | rfl | rfl | rfl
        · refine ⟨by dsimp only; omega, ?_⟩
          dsimp only
          rw [add_sub_cancel, hbase]
          exact dvd_alignUp _ _
        all_goals rcases SegPerm.readable_eq_false.mp hperm with h | h | h <;> cases h
      · refine ih hs.cons ?_ hrest
        rw [slotSize_of_nsoAt hnso]
        omega

/-- No address is in the image of two modules. -/
def NonOverlapping (e : ExeFS) : Prop := ∀ a i j, e.InImage a i → e.InImage a j → i = j

/-- A bound of the modules and of the first gap bounds all pages. -/
theorem le_of_mem_memoryMapFrom (hp : ∀ i nso, e.nsoAt i = some nso → nso.WellPlaced)
    (hs : e.Suffix is S)
    (hbase : ∀ j ∈ is, ∀ nso, e.nsoAt j = some nso → 0 < nso.endAddress.toNat →
      B ≤ e.getNsoAddress j)
    (hacc : B ≤ acc ∨ acc = alignUp 0x1000 S) (hmem : page ∈ e.memoryMapFrom is acc)
    (hc : page.Contains a) : B ≤ a := by
  induction is generalizing S acc with
  | nil => simp [memoryMapFrom] at hmem
  | cons i is ih =>
    have hi := hs.getNsoAddress
    have hbase' := fun j hj => hbase j (List.mem_cons_of_mem i hj)
    rw [memoryMapFrom] at hmem
    cases hnso : e.nsoAt i with
    | none =>
      rw [hnso] at hmem
      have hzero : S + e.slotSize i = S := by simp only [slotSize, hnso, add_zero]
      exact ih (hzero ▸ hs.cons) hbase' hacc hmem
    | some nso =>
      rw [hnso] at hmem
      have hfirst := hbase i List.mem_cons_self nso hnso
      have hsize := e.slotSize_of_nsoAt hnso
      rcases List.mem_append.mp hmem with hmod | hrest
      · by_cases hperm : page.permission = .none
        · rcases (mem_modulePages (hp i nso hnso)).mp hmod with ⟨hpos, rfl⟩ | rfl | rfl | rfl
          · have hge : acc ≤ a := hc.1
            omega
          all_goals cases hperm
        · obtain ⟨nso', hnso', hle, hlt⟩ := (e.inImage_iff a i).mp
            (inImage_of_mem_modulePages hnso (hp i nso hnso) hmod hc hperm)
          obtain rfl : nso = nso' := Option.some.inj (hnso.symm.trans hnso')
          rw [(hp i nso hnso).toNat_startAddress] at hle
          have := hfirst (by omega)
          omega
      · refine ih hs.cons hbase' ?_ hrest
        by_cases hzero : nso.endAddress.toNat = 0
        · right
          rw [hsize, hzero, hi]
          simp
        · left
          have := hfirst (by omega)
          omega

theorem lt_of_mem_modulePages {nso : Nso} (hp : nso.WellPlaced)
    (hmem : page ∈ e.modulePages i nso acc) (hc : page.Contains a) :
    a < e.getNsoAddress i + nso.endAddress.toNat := by
  have hend := hp.toNat_endAddress
  have hle := hp.text_le
  have hle' := hp.rodata_le
  rw [MemPage.contains_iff] at hc
  rcases (mem_modulePages hp).mp hmem with ⟨hpos, rfl⟩ | rfl | rfl | rfl <;> dsimp only at hc <;>
    omega

theorem eq_of_mem_modulePages {nso : Nso} (hp : nso.WellPlaced)
    (hmem : page ∈ e.modulePages i nso acc) (hmem' : page' ∈ e.modulePages i nso acc)
    (hc : page.Contains a) (hc' : page'.Contains a) : page = page' := by
  have hend := hp.toNat_endAddress
  have hle := hp.text_le
  have hle' := hp.rodata_le
  rw [MemPage.contains_iff] at hc hc'
  rcases (mem_modulePages hp).mp hmem with ⟨hpos, rfl⟩ | rfl | rfl | rfl <;>
    rcases (mem_modulePages hp).mp hmem' with ⟨hpos', rfl⟩ | rfl | rfl | rfl <;>
    first
    | rfl
    | (dsimp only at hc hc'; omega)

/-- The modules behind one that is loaded lie behind its end. -/
theorem NonOverlapping.end_le (h : e.NonOverlapping)
    (hp : ∀ i nso, e.nsoAt i = some nso → nso.WellPlaced) {j : NsoTypeEnum} {nso nso' : Nso}
    (hij : i.index < j.index) (hi : e.nsoAt i = some nso) (hj : e.nsoAt j = some nso')
    (hpos : 0 < nso'.endAddress.toNat) :
    e.getNsoAddress i + nso.endAddress.toNat ≤ e.getNsoAddress j := by
  have hmono := e.getNsoAddress_mono hij.le
  by_contra hlt
  have hini : e.InImage (e.getNsoAddress j) i := by
    rw [inImage_iff]
    exact ⟨nso, hi, by rw [(hp i nso hi).toNat_startAddress]; omega, by omega⟩
  have hinj : e.InImage (e.getNsoAddress j) j := by
    rw [inImage_iff]
    exact ⟨nso', hj, by rw [(hp j nso' hj).toNat_startAddress]; omega, by omega⟩
  rw [h _ i j hini hinj] at hij
  omega

theorem NonOverlapping.not_mem_rest (h : e.NonOverlapping)
    (hp : ∀ i nso, e.nsoAt i = some nso → nso.WellPlaced) {nso : Nso} (hs : e.Suffix (i :: is) S)
    (hnso : e.nsoAt i = some nso) (hmem : page ∈ e.modulePages i nso acc) (hc : page.Contains a)
    (hmem' : page' ∈ e.memoryMapFrom is (e.getNsoAddress i + nso.endAddress.toNat)) :
    ¬ page'.Contains a := by
  intro hc'
  have hlt := lt_of_mem_modulePages (hp i nso hnso) hmem hc
  have hge := le_of_mem_memoryMapFrom hp hs.cons
    (fun j hj nso' hnso' hpos => h.end_le hp (hs.index_lt j hj) hnso hnso' hpos)
    (Or.inl le_rfl) hmem' hc'
  omega

theorem NonOverlapping.eq_of_mem_memoryMapFrom (h : e.NonOverlapping)
    (hp : ∀ i nso, e.nsoAt i = some nso → nso.WellPlaced) (hs : e.Suffix is S)
    (hmem : page ∈ e.memoryMapFrom is acc) (hmem' : page' ∈ e.memoryMapFrom is acc)
    (hc : page.Contains a) (hc' : page'.Contains a) : page = page' := by
  induction is generalizing S acc with
  | nil => simp [memoryMapFrom] at hmem
  | cons i is ih =>
    rw [memoryMapFrom] at hmem hmem'
    cases hnso : e.nsoAt i with
    | none =>
      rw [hnso] at hmem hmem'
      exact ih hs.cons hmem hmem'
    | some nso =>
      rw [hnso] at hmem hmem'
      rcases List.mem_append.mp hmem with hmod | hrest <;>
        rcases List.mem_append.mp hmem' with hmod' | hrest'
      · exact eq_of_mem_modulePages (hp i nso hnso) hmod hmod' hc hc'
      · exact absurd hc' (h.not_mem_rest hp hs hnso hmod hc hrest')
      · exact absurd hc (h.not_mem_rest hp hs hnso hmod' hc' hrest)
      · exact ih hs.cons hrest hrest'

/-- An address is on one page only. -/
theorem NonOverlapping.getAddressPage_eq (h : e.NonOverlapping)
    (hp : ∀ i nso, e.nsoAt i = some nso → nso.WellPlaced) (hmem : page ∈ e.getMemoryMap)
    (hc : page.Contains a) : e.getAddressPage a = some page := by
  cases hpage : e.getAddressPage a with
  | none =>
    have hnot := List.find?_eq_none.mp hpage page hmem
    simp only [decide_eq_true_eq] at hnot
    exact absurd hc hnot
  | some q =>
    obtain ⟨hq, hcq⟩ := getAddressPage_eq_some hpage
    rw [h.eq_of_mem_memoryMapFrom hp e.suffix_all hq hmem hcq hc]

/-- A page that gives access begins with a segment, and no byte of another one lies on it. -/
structure PageOf (e : ExeFS) (page : MemPage) (i : NsoTypeEnum) (nso : Nso)
    (t : NsoSegmentType) : Prop where
  nsoAt : e.nsoAt i = some nso
  address : page.address = e.getNsoAddress i + (nso.segments t).address.toNat
  inImage : ∀ a, page.Contains a → e.InImage a i
  segment : ∀ u (off : ℕ), page.Contains (e.getNsoAddress i + off) → nso.RangeIn u off 1 → u = t

theorem exists_pageOf (hp : ∀ i nso, e.nsoAt i = some nso → nso.WellPlaced)
    (hmem : page ∈ e.getMemoryMap) (hperm : page.permission.readable = true) :
    ∃ i nso t, e.PageOf page i nso t := by
  obtain ⟨i, nso, acc, hnso, hmod⟩ := exists_modulePages all 0 hmem
  have hwp := hp i nso hnso
  have hne : page.permission ≠ .none := by
    intro hnone
    rw [hnone] at hperm
    exact absurd hperm (by decide)
  have hin : ∀ a, page.Contains a → e.InImage a i := fun a hc =>
    inImage_of_mem_modulePages hnso hwp hmod hc hne
  have htext := hwp.text_zero
  have hle := hwp.text_le
  have hle' := hwp.rodata_le
  have hpages := (mem_modulePages hwp).mp hmod
  simp only [Nso.textSegment, Nso.rodataSegment, Nso.rwdataSegment] at htext hle hle' hpages
  rcases hpages with ⟨-, rfl⟩ | rfl | rfl | rfl
  · exact absurd rfl hne
  · refine ⟨i, nso, .text, hnso, by dsimp only; omega, hin, fun u off hc hr => ?_⟩
    simp only [MemPage.contains_iff, Nso.RangeIn] at hc hr
    cases u <;> first | rfl | (exfalso; omega)
  · refine ⟨i, nso, .rodata, hnso, rfl, hin, fun u off hc hr => ?_⟩
    simp only [MemPage.contains_iff, Nso.RangeIn] at hc hr
    cases u <;> first | rfl | (exfalso; omega)
  · refine ⟨i, nso, .rwdata, hnso, rfl, hin, fun u off hc hr => ?_⟩
    simp only [MemPage.contains_iff, Nso.RangeIn] at hc hr
    cases u <;> first | rfl | (exfalso; omega)

end Sp2Module.ExeFS
