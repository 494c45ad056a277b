import Sp2Module.MemoryPages
import Sp2Module.ReadExeFs
import Mathlib.Data.Nat.Count

/-!
# Ranges that are read

A read that starts `d` bytes into a gap moves on by the size of the gap from there, so it leaves out
the first `d` bytes of the modules behind the gap, over further gaps where these modules are small.
After that, and in any other read, a turn starts where a page does, and copies the whole page, also
where the range ends before it.
-/

namespace Sp2Module.ExeFS

open NsoTypeEnum

variable {e : ExeFS} {addr pos a lo mid hi : ℤ} {size : ℕ} {page : MemPage}

/-- A module is loaded over the address. -/
def OverModule (e : ExeFS) (a : ℤ) : Prop := ∃ i, e.InImage a i

instance (e : ExeFS) (a : ℤ) : Decidable (e.OverModule a) :=
  decidable_of_iff (∃ i ∈ all, e.InImage a i) (by simp [OverModule])

/-- The number of module bytes in `[lo, hi)`. -/
def moduleBytes (e : ExeFS) (lo hi : ℤ) : ℕ :=
  Nat.count (fun k => e.OverModule (lo + k)) (hi - lo).toNat

/-- How far behind the start of a gap the address is. -/
def gapOffset (e : ExeFS) (addr : ℤ) : ℤ :=
  match e.getAddressPage addr with
  | none => 0
  | some page => if page.permission.readable then 0 else addr - page.address

/-- One of the first module bytes behind `addr`, as many of them as there are bytes of a gap
before `addr`. -/
def Skipped (e : ExeFS) (addr a : ℤ) : Prop :=
  e.OverModule a ∧ e.moduleBytes addr a < e.gapOffset addr

/-- The bytes that are left out are zero, and no page that is read, but for the first one, goes
beyond the range. -/
structure RangeFits (e : ExeFS) (addr : ℤ) (size : ℕ) : Prop where
  skipped : ∀ a, addr ≤ a → a < addr + size → e.Skipped addr a → e.ImageByte a 0
  page : ∀ a page, addr ≤ a → a < addr + size → ¬ e.Skipped addr a →
    e.getAddressPage a = some page → page.permission.readable = true →
    page.Contains addr ∨ page.address + page.size ≤ addr + size

/-! ### Module bytes -/

theorem moduleBytes_add (e : ExeFS) (h : lo ≤ mid) (h' : mid ≤ hi) :
    e.moduleBytes lo mid + e.moduleBytes mid hi = e.moduleBytes lo hi := by
  have hlen : (hi - lo).toNat = (mid - lo).toNat + (hi - mid).toNat := by omega
  have hshift : ∀ k : ℕ, lo + ((mid - lo).toNat + k : ℕ) = mid + k := by
    intro k
    omega
  unfold moduleBytes
  rw [hlen, Nat.count_add]
  simp only [hshift]

theorem moduleBytes_eq_zero (h : ∀ a, lo ≤ a → a < hi → ¬ e.OverModule a) :
    e.moduleBytes lo hi = 0 := by
  rw [moduleBytes, Nat.count_iff_forall_not]
  intro k hk
  exact h _ (by omega) (by omega)

theorem moduleBytes_eq_sub (hle : lo ≤ hi) (h : ∀ a, lo ≤ a → a < hi → e.OverModule a) :
    (e.moduleBytes lo hi : ℤ) = hi - lo := by
  have hcount : e.moduleBytes lo hi = (hi - lo).toNat := by
    rw [moduleBytes, Nat.count_iff_forall]
    intro k hk
    exact h _ (by omega) (by omega)
  omega

theorem moduleBytes_le_sub (e : ExeFS) (hle : lo ≤ hi) :
    (e.moduleBytes lo hi : ℤ) ≤ hi - lo := by
  have hcount : e.moduleBytes lo hi ≤ (hi - lo).toNat := Nat.count_le _
  omega

theorem moduleBytes_self (e : ExeFS) (a : ℤ) : e.moduleBytes a a = 0 :=
  moduleBytes_eq_zero fun _ hle hlt => absurd hle (not_le.mpr hlt)

theorem gapOffset_of_readable (hpage : e.getAddressPage a = some page)
    (hread : page.permission.readable = true) : e.gapOffset a = 0 := by
  simp only [gapOffset, hpage, hread, if_true]

theorem gapOffset_of_gap (hpage : e.getAddressPage a = some page)
    (hread : page.permission.readable = false) : e.gapOffset a = a - page.address := by
  simp only [gapOffset, hpage, hread, Bool.false_eq_true, if_false]

section WellFormed

variable (hwf : e.WellFormed) (hno : e.NonOverlapping)
include hwf

theorem overModule_iff_readable (hpage : e.getAddressPage a = some page) :
    e.OverModule a ↔ page.permission.readable = true := by
  constructor
  · rintro ⟨i, hin⟩
    obtain ⟨j, -, hfirst⟩ := exists_firstOver hin
    obtain ⟨nso, hnso, -⟩ := (e.inImage_iff a j).mp hfirst.1
    obtain ⟨q, hq, hperm⟩ := getAddressPage_of_firstOver hwf.placed hnso hfirst
    obtain rfl : page = q := Option.some.inj (hpage.symm.trans hq)
    rw [hperm, Nso.readable_pagePerm]
  · intro hread
    obtain ⟨hmem, hc⟩ := getAddressPage_eq_some hpage
    refine exists_inImage_of_mem hwf.placed hmem hc ?_
    intro hnone
    rw [hnone] at hread
    exact absurd hread (by decide)

/-- A byte of the image is on a page. -/
theorem exists_page_of_imageByte {b : UInt8} (h : e.ImageByte a b) :
    ∃ page, e.getAddressPage a = some page := by
  rcases h with ⟨⟨page, hpage, -⟩, -⟩ | ⟨i, r, t, off, hr, ha, hoff, -⟩
  · exact ⟨page, hpage⟩
  · have hnso : e.nsoAt i = some (e.objects r) := nsoAt_eq_some.mpr ⟨r, hr, rfl⟩
    have hwp := hwf.placed i _ hnso
    have hend := hwp.segment_end_le t
    have hin : e.InImage a i := by
      rw [inImage_iff]
      exact ⟨_, hnso, by rw [hwp.toNat_startAddress]; omega, by omega⟩
    obtain ⟨page, hpage, -⟩ := exists_page_of_inImage hwf.placed hin
    exact ⟨page, hpage⟩

/-- Outside of the modules the image is zero. -/
theorem imageByte_zero_of_not_overModule {b : UInt8} (h : e.ImageByte a b)
    (hnot : ¬ e.OverModule a) :
    e.ImageByte a 0 := by
  obtain ⟨page, hpage⟩ := exists_page_of_imageByte hwf h
  rw [overModule_iff_readable hwf hpage, Bool.not_eq_true] at hnot
  exact Or.inl ⟨⟨page, hpage, hnot⟩, rfl⟩

include hno

theorem getAddressPage_of_contains (hpage : e.getAddressPage a = some page) {x : ℤ}
    (hc : page.Contains x) : e.getAddressPage x = some page :=
  hno.getAddressPage_eq hwf.placed (getAddressPage_eq_some hpage).1 hc

theorem moduleBytes_gap (hpage : e.getAddressPage a = some page)
    (hread : page.permission.readable = false) (hle : page.address ≤ lo)
    (hend : hi ≤ page.address + page.size) : e.moduleBytes lo hi = 0 := by
  apply moduleBytes_eq_zero
  intro x hx hlt
  have hc : page.Contains x := (page.contains_iff x).mpr (by omega)
  rw [overModule_iff_readable hwf (getAddressPage_of_contains hwf hno hpage hc), hread]
  exact Bool.false_ne_true

/-- Two pages with an address in common are one. -/
theorem page_eq {q : MemPage} {x : ℤ} (hpage : e.getAddressPage a = some page)
    (hq : e.getAddressPage lo = some q) (hc : page.Contains x) (hc' : q.Contains x) : page = q := by
  have h := getAddressPage_of_contains hwf hno hpage hc
  rw [getAddressPage_of_contains hwf hno hq hc'] at h
  exact (Option.some.inj h).symm

/-- Another page over a later address starts behind the page. -/
theorem end_le_address {q : MemPage} (hpage : e.getAddressPage a = some page)
    (hq : e.getAddressPage lo = some q) (hle : page.address + page.size ≤ lo) :
    page.address + page.size ≤ q.address := by
  have hc := getAddressPage_bounds hpage
  have hcq := getAddressPage_bounds hq
  by_contra hlt
  have heq := page_eq hwf hno hpage hq (x := page.address + page.size - 1)
    ((page.contains_iff _).mpr (by omega)) ((q.contains_iff _).mpr (by omega))
  subst heq
  omega

/-- What follows a gap up to a page's distance from its end is loaded, but for the gap that is
there. -/
theorem overModule_behind_gap {q : MemPage} (hpage : e.getAddressPage pos = some page)
    (hread : page.permission.readable = false)
    (hq : e.getAddressPage (pos + page.size) = some q)
    (hcover : ∃ b, e.ImageByte a b) (hle : page.address + page.size ≤ a) (hlt : a ≤ pos + page.size)
    (hnot : q.permission.readable = false → a < q.address) : e.OverModule a := by
  obtain ⟨b, hb⟩ := hcover
  obtain ⟨h, hh⟩ := exists_page_of_imageByte hwf hb
  rw [overModule_iff_readable hwf hh]
  by_contra hgap
  rw [Bool.not_eq_true] at hgap
  obtain ⟨hmem, hc⟩ := getAddressPage_eq_some hpage
  obtain ⟨hmemh, hch⟩ := getAddressPage_eq_some hh
  rw [MemPage.contains_iff] at hc hch
  obtain ⟨hsize, hdvd⟩ := gap_of_mem_memoryMapFrom hwf.placed e.suffix_all le_rfl hmem hread
  obtain ⟨-, hdvd'⟩ := gap_of_mem_memoryMapFrom hwf.placed e.suffix_all le_rfl hmemh hgap
  have heq : h = q := page_eq hwf hno hh hq (x := pos + page.size)
    ((h.contains_iff _).mpr (by omega)) (getAddressPage_eq_some hq).2
  subst heq
  have hlt' := hnot hgap
  omega

/-! ### Where the turns start -/

/-- A turn starts at `pos`: behind the first page, and either as far into a gap as there are bytes
left to be left out, or with none left. -/
structure AtTurn (e : ExeFS) (addr pos : ℤ) : Prop where
  le : addr ≤ pos
  first : pos = addr ∨ ∀ page, e.getAddressPage addr = some page →
    page.address + page.size ≤ pos
  skip_le : e.gapOffset addr ≤ e.gapOffset pos + e.moduleBytes addr pos
  skip_eq : 0 < e.gapOffset pos → e.gapOffset addr = e.gapOffset pos + e.moduleBytes addr pos

omit hwf hno in
theorem atTurn_start (e : ExeFS) (addr : ℤ) : e.AtTurn addr addr where
  le := le_rfl
  first := Or.inl rfl
  skip_le := by rw [e.moduleBytes_self, Nat.cast_zero, add_zero]
  skip_eq _ := by rw [e.moduleBytes_self, Nat.cast_zero, add_zero]

omit hwf hno in
theorem AtTurn.end_le (h : e.AtTurn addr pos) (hpage : e.getAddressPage pos = some page)
    (hle : page.address + page.size ≤ lo) :
    ∀ page, e.getAddressPage addr = some page → page.address + page.size ≤ lo := by
  intro q hq
  have hc := getAddressPage_bounds hpage
  rcases h.first with rfl | hfirst
  · rw [hpage] at hq
    cases hq
    exact hle
  · have hend := hfirst q hq
    omega

/-- At the end of a page nothing is left to be left out, unless it is a gap entered in its
middle. -/
theorem AtTurn.page_end {q : MemPage} (h : e.AtTurn addr pos)
    (hpage : e.getAddressPage pos = some page) (hoff : e.gapOffset pos = 0)
    (hq : e.getAddressPage (page.address + page.size) = some q) :
    e.AtTurn addr (page.address + page.size) := by
  have hc := getAddressPage_bounds hpage
  have hge := end_le_address hwf hno hpage hq le_rfl
  have hcq := getAddressPage_bounds hq
  have hzero : e.gapOffset (page.address + page.size) = 0 := by
    unfold gapOffset
    rw [hq]
    dsimp only
    split_ifs <;> omega
  have hadd := e.moduleBytes_add h.le (show pos ≤ page.address + page.size by omega)
  have hskip := h.skip_le
  have hle := h.le
  exact ⟨by omega, Or.inr (h.end_le hpage le_rfl), by omega, by omega⟩

/-- A jump out of the middle of a gap leaves out as many bytes as it was into the gap, unless it
ends in a gap again. -/
theorem AtTurn.jump {q : MemPage} (h : e.AtTurn addr pos)
    (hpage : e.getAddressPage pos = some page) (hread : page.permission.readable = false)
    (hq : e.getAddressPage (pos + page.size) = some q)
    (hcover : ∀ a, page.address + page.size ≤ a → a < pos + page.size → ∃ b, e.ImageByte a b) :
    e.AtTurn addr (pos + page.size) := by
  have hc := getAddressPage_bounds hpage
  have hcq := getAddressPage_bounds hq
  have hoff := gapOffset_of_gap hpage hread
  have hle := h.le
  by_cases hzero : pos = page.address
  · have hturn := h.page_end (q := q) hwf hno hpage (by omega)
    rw [← hzero] at hturn
    exact hturn hq
  · have hge := end_le_address hwf hno hpage hq (by omega)
    have hskip := h.skip_eq (by omega)
    have hgap := moduleBytes_gap hwf hno hpage hread hc.1 le_rfl
    have hadd := e.moduleBytes_add hle (show pos ≤ page.address + page.size by omega)
    have hadd' := e.moduleBytes_add (show addr ≤ page.address + page.size by omega)
      (show page.address + page.size ≤ pos + page.size by omega)
    -- the new offset and the bytes behind the gap make up for the old offset
    have hmove : e.gapOffset (pos + page.size) +
        e.moduleBytes (page.address + page.size) (pos + page.size) = pos - page.address := by
      cases hreadq : q.permission.readable with
      | true =>
        rw [gapOffset_of_readable hq hreadq, moduleBytes_eq_sub (by omega) fun a ha hlt =>
          overModule_behind_gap hwf hno hpage hread hq (hcover a ha hlt) ha hlt.le fun hgapq => by
            rw [hreadq] at hgapq
            cases hgapq]
        omega
      | false =>
        have hadd'' := e.moduleBytes_add hge (show q.address ≤ pos + page.size by omega)
        have hload := moduleBytes_eq_sub (e := e) hge fun a ha hlt =>
          overModule_behind_gap hwf hno hpage hread hq (hcover a ha (by omega)) ha (by omega)
            fun _ => hlt
        have hnone := moduleBytes_gap hwf hno hq hreadq le_rfl hcq.2.le
        rw [gapOffset_of_gap hq hreadq]
        omega
    exact ⟨by omega, Or.inr (h.end_le hpage (by omega)), by omega, by omega⟩

/-- The range is in the memory map, and its bytes are in gaps and segments. -/
def Covered (e : ExeFS) (addr : ℤ) (size : ℕ) : Prop :=
  ∀ a, addr ≤ a → a < addr + size → ∃ b, e.ImageByte a b

theorem AtTurn.next (h : e.AtTurn addr pos) (hcover : e.Covered addr size)
    (hstop : e.nextPos size pos < addr + size) : e.AtTurn addr (e.nextPos size pos) := by
  have hle := h.le
  have hnext := e.le_nextPos size pos
  obtain ⟨b, hb⟩ := hcover pos hle (by omega)
  obtain ⟨page, hpage⟩ := exists_page_of_imageByte hwf hb
  obtain ⟨b', hb'⟩ := hcover _ (by omega) hstop
  obtain ⟨q, hq⟩ := exists_page_of_imageByte hwf hb'
  have hc := getAddressPage_bounds hpage
  cases hread : page.permission.readable with
  | true =>
    rw [nextPos_of_readable size hpage hread] at hstop hq ⊢
    have hend : pos + min (page.size - (pos - page.address)) (size : ℤ) =
        page.address + page.size := by omega
    rw [hend] at hq ⊢
    exact h.page_end hwf hno hpage (gapOffset_of_readable hpage hread) hq
  | false =>
    rw [nextPos_of_gap size hpage hread] at hstop hq ⊢
    exact h.jump hwf hno hpage hread hq fun a ha hlt => hcover a (by omega) (by omega)

/-- Every turn of a run. -/
theorem atTurn_iterate (hcover : e.Covered addr size) (m : ℕ)
    (hm : (e.nextPos size)^[m] addr < addr + size) :
    e.AtTurn addr ((e.nextPos size)^[m] addr) := by
  induction m with
  | zero => exact e.atTurn_start addr
  | succ m ih =>
    rw [Function.iterate_succ_apply'] at hm ⊢
    have hle := e.le_nextPos size ((e.nextPos size)^[m] addr)
    exact (ih (by omega)).next hwf hno hcover hm

/-! ### What the turns copy -/

/-- A turn in a gap copies nothing, so it is good when what it jumps over is zero. -/
theorem turnGood_gap_iff (hpage : e.getAddressPage pos = some page)
    (hread : page.permission.readable = false) (hpos : pos < addr + size) :
    e.TurnGood addr size pos ↔ ∀ a, page.address + page.size ≤ a → a < pos + page.size →
      a < addr + size → e.ImageByte a 0 := by
  have hc := getAddressPage_bounds hpage
  have hnext := nextPos_of_gap size hpage hread
  constructor
  · rintro ⟨sub, ⟨q, hq, ⟨hreadq, -⟩ | ⟨-, rfl⟩⟩, -, -, hzero⟩ a ha hlt hstop
    · obtain rfl : page = q := Option.some.inj (hpage.symm.trans hq)
      rw [hread] at hreadq
      cases hreadq
    · exact hzero a (by rw [List.length_nil]; omega) (by omega) hstop
  · intro hzero
    refine ⟨[], ⟨page, hpage, Or.inr ⟨hread, rfl⟩⟩, ?_, fun k b hb => ?_,
      fun a ha hlt hstop => ?_⟩
    · rw [List.length_nil]
      omega
    · cases hb
    rw [List.length_nil] at ha
    by_cases hin : a < page.address + page.size
    · have hpagea := getAddressPage_of_contains hwf hno hpage ((page.contains_iff a).mpr
        (by omega))
      exact Or.inl ⟨⟨page, hpagea, hread⟩, rfl⟩
    · exact hzero a (by omega) (by omega) hstop

/-- A byte of a page is one of its segment. -/
theorem PageOf.of_imageByte {i : NsoTypeEnum} {r : NsoRef} {t : NsoSegmentType} {b : UInt8}
    (h : e.PageOf page i (e.objects r) t) (hr : e.nsos i = some r)
    (hpage : e.getAddressPage a = some page) (hread : page.permission.readable = true)
    (hb : e.ImageByte a b) :
    ∃ off : ℕ, a = e.getNsoAddress i + (((e.objects r).segments t).address.toNat + off : ℕ) ∧
      off < ((e.objects r).segments t).decompressedSize.toNat ∧
      ((e.objects r).segments t).rawData[off]? = some b := by
  rcases hb with ⟨⟨q, hq, hreadq⟩, -⟩ | ⟨j, r', u, off, hr', ha, hoff, hraw⟩
  · obtain rfl : page = q := Option.some.inj (hpage.symm.trans hq)
    rw [hread] at hreadq
    cases hreadq
  · have hnso : e.nsoAt j = some (e.objects r') := nsoAt_eq_some.mpr ⟨r', hr', rfl⟩
    have hwp := hwf.placed j _ hnso
    have hend := hwp.segment_end_le u
    have hin : e.InImage a j := by
      rw [inImage_iff]
      exact ⟨_, hnso, by rw [hwp.toNat_startAddress]; omega, by omega⟩
    have hc := (getAddressPage_eq_some hpage).2
    obtain rfl : j = i := hno a j i hin (h.inImage a hc)
    obtain rfl : r' = r := Option.some.inj (hr'.symm.trans hr)
    obtain rfl : u = t := h.segment u _ (ha ▸ hc) ⟨by omega, by omega⟩
    exact ⟨off, ha, hoff, hraw⟩

omit hwf hno in
theorem baseOf_eq {i : NsoTypeEnum} {r : NsoRef} (hd : e.Distinct) (hr : e.nsos i = some r) :
    e.baseOf r = e.getNsoAddress i := by
  have hindex : e.indexOf r = some i := by
    unfold indexOf
    cases hfind : all.find? fun i => e.nsos i = some r with
    | none =>
      have hnot := List.find?_eq_none.mp hfind i (mem_all i)
      simp [hr] at hnot
    | some j =>
      have hj : e.nsos j = some r := by simpa using List.find?_some hfind
      rw [hd j i r hj hr]
  rw [baseOf, hindex]
  rfl

/-- On a readable page a turn copies all that it asks for, if that is in the range. -/
theorem exists_copies (hpage : e.getAddressPage pos = some page)
    (hread : page.permission.readable = true) (hcover : e.Covered addr size)
    (hmax : size ≤ maxArrayLength) {n : ℕ} (hn : 0 < n) (hle : addr ≤ pos)
    (hstop : pos + n ≤ addr + size)
    (hmin : (n : ℤ) = min (page.size - (pos - page.address)) size) :
    ∃ sub, e.Copies size pos sub ∧ sub.length = n ∧
      ∀ (k : ℕ) b, sub[k]? = some b → e.ImageByte (pos + k) b := by
  obtain ⟨hmem, hcpos⟩ := getAddressPage_eq_some hpage
  have hc := (page.contains_iff pos).mp hcpos
  obtain ⟨i, nso, t, hof⟩ := exists_pageOf hwf.placed hmem hread
  obtain ⟨r, hr, rfl⟩ := nsoAt_eq_some.mp hof.nsoAt
  have hwp := hwf.placed i _ hof.nsoAt
  have hraw := hwf.sized i _ hof.nsoAt t
  have hend := (hwp.segment_end_le t).trans_lt (e.objects r).endAddress.toNat_lt
  have hfirst : e.FirstOver pos i :=
    ⟨hof.inImage pos hcpos, fun j hj hin => by
      rw [hno pos j i hin (hof.inImage pos hcpos)] at hj
      omega⟩
  have haddr := hof.address
  -- every byte of the range is one of the segment that the page begins with
  have hbyte : ∀ k : ℕ, k < n → ∃ b, e.ImageByte (pos + k) b ∧ ∃ off : ℕ,
      pos + k = e.getNsoAddress i + (((e.objects r).segments t).address.toNat + off : ℕ) ∧
      off < ((e.objects r).segments t).decompressedSize.toNat ∧
      ((e.objects r).segments t).rawData[off]? = some b := by
    intro k hk
    obtain ⟨b, hb⟩ := hcover (pos + k) (by omega) (by omega)
    have hpagek := getAddressPage_of_contains hwf hno hpage
      ((page.contains_iff (pos + k)).mpr (by omega))
    exact ⟨b, hb, hof.of_imageByte hwf hno hr hpagek hread hb⟩
  obtain ⟨-, -, first, hpos, -, -⟩ := hbyte 0 hn
  obtain ⟨-, -, last, hlast, hlastlt, -⟩ := hbyte (n - 1) (by omega)
  have hbase := baseOf_eq hwf.distinct hr
  have hcast := toNat_uintOfLong_of_lt (x := pos - e.baseOf r) (by omega) (by omega)
  have hseg : (e.objects r).getAddressSegment (uintOfLong (pos - e.baseOf r)) = some t :=
    hwp.getAddressSegment (by omega) (by omega)
  have hsub := Nso.readNso_of_getAddressSegment (n := n) hseg (by omega) (by omega) (by omega)
  rw [hmin] at hsub
  refine ⟨_, ⟨page, hpage, Or.inl ⟨hread, r, getAddressNso_eq_some.mpr ⟨i, hfirst, hr⟩, hsub⟩⟩,
    ?_, fun k b hk => ?_⟩
  · rw [length_slice]
    omega
  · rw [getElem?_slice] at hk
    split_ifs at hk with hkn
    obtain ⟨b', hb', off, hoff, -, hrawb⟩ := hbyte k hkn
    have heq : (uintOfLong (pos - e.baseOf r)).toNat -
        ((e.objects r).segments t).address.toNat + k = off := by omega
    rw [heq, hrawb] at hk
    cases hk
    exact hb'

omit hno in
/-- What a turn copies has the length it asks for. -/
theorem Copies.length_eq {sub : Bytes} (h : e.Copies size pos sub)
    (hpage : e.getAddressPage pos = some page) (hread : page.permission.readable = true) :
    (sub.length : ℤ) = min (page.size - (pos - page.address)) size := by
  have hc := getAddressPage_bounds hpage
  obtain ⟨q, hq, ⟨-, r, hnso, hsub⟩ | ⟨hreadq, -⟩⟩ := h
  · obtain rfl : page = q := Option.some.inj (hpage.symm.trans hq)
    obtain ⟨i, -, hr⟩ := getAddressNso_eq_some.mp hnso
    have hsized := hwf.sized i _ (nsoAt_eq_some.mpr ⟨r, hr, rfl⟩)
    obtain ⟨n, hn⟩ := Int.eq_ofNat_of_zero_le
      (show 0 ≤ min (page.size - (pos - page.address)) (size : ℤ) by omega)
    rw [hn] at hsub ⊢
    obtain ⟨t, off, -, -, -, hlen⟩ := Nso.locate_of_readNso hsized hsub
    rw [hlen]
  · obtain rfl : page = q := Option.some.inj (hpage.symm.trans hq)
    rw [hread] at hreadq
    cases hreadq

/-- On a readable page a turn is good when the range holds all that it copies. -/
theorem turnGood_readable_iff (hpage : e.getAddressPage pos = some page)
    (hread : page.permission.readable = true) (hcover : e.Covered addr size)
    (hmax : size ≤ maxArrayLength) (hle : addr ≤ pos) (hpos : pos < addr + size) :
    e.TurnGood addr size pos ↔
      pos + min (page.size - (pos - page.address)) (size : ℤ) ≤ addr + size := by
  have hc := getAddressPage_bounds hpage
  have hnext := nextPos_of_readable size hpage hread
  constructor
  · rintro ⟨sub, hcopies, hfit, -, -⟩
    rwa [hcopies.length_eq hwf hpage hread] at hfit
  · intro hfit
    obtain ⟨n, hn⟩ := Int.eq_ofNat_of_zero_le
      (show 0 ≤ min (page.size - (pos - page.address)) (size : ℤ) by omega)
    obtain ⟨sub, hcopies, hlen, hbytes⟩ := exists_copies hwf hno hpage hread hcover hmax
      (n := n) (by omega) hle (by omega) hn.symm
    exact ⟨sub, hcopies, by omega, hbytes, fun a ha hlt _ => by omega⟩

/-! ### Reads -/

omit hno in
/-- A turn in the range gets on. -/
theorem Covered.lt_nextPos (hcover : e.Covered addr size) (hle : addr ≤ pos)
    (hpos : pos < addr + size) : pos < e.nextPos size pos := by
  obtain ⟨b, hb⟩ := hcover pos hle hpos
  obtain ⟨page, hpage⟩ := exists_page_of_imageByte hwf hb
  have hc := getAddressPage_bounds hpage
  unfold nextPos
  rw [hpage]
  dsimp only
  split_ifs <;> omega

omit hno in
/-- Every address of the range falls into a turn. -/
theorem Covered.exists_turn (hcover : e.Covered addr size) {n : ℕ} (hle : addr ≤ pos)
    (hpos : pos ≤ a) (ha : a < addr + size) (hn : a < pos + n) :
    ∃ m, (e.nextPos size)^[m] pos ≤ a ∧ a < e.nextPos size ((e.nextPos size)^[m] pos) := by
  induction n generalizing pos with
  | zero => omega
  | succ n ih =>
    by_cases hlt : a < e.nextPos size pos
    · exact ⟨0, hpos, hlt⟩
    · have hnext := hcover.lt_nextPos hwf hle (by omega)
      obtain ⟨m, hm⟩ := ih (show addr ≤ e.nextPos size pos by omega) (by omega) (by omega)
      refine ⟨m + 1, ?_⟩
      rwa [Function.iterate_succ_apply]

/-- What a jump out of a gap goes over is left out. -/
theorem AtTurn.skipped (h : e.AtTurn addr pos) (hpage : e.getAddressPage pos = some page)
    (hread : page.permission.readable = false) (ha : page.address + page.size ≤ a)
    (hlt : a < pos + page.size) (hload : e.OverModule a) : e.Skipped addr a := by
  have hc := getAddressPage_bounds hpage
  have hle := h.le
  have hoff := gapOffset_of_gap hpage hread
  have hskip := h.skip_eq (by omega)
  have hadd := e.moduleBytes_add hle (show pos ≤ a by omega)
  have hadd' := e.moduleBytes_add (show pos ≤ page.address + page.size by omega) ha
  have hgap := moduleBytes_gap hwf hno hpage hread hc.1 le_rfl
  have hcount := e.moduleBytes_le_sub ha
  exact ⟨hload, by omega⟩

omit hwf hno in
/-- On a readable page nothing more is left out. -/
theorem AtTurn.not_skipped (h : e.AtTurn addr pos) (hpage : e.getAddressPage pos = some page)
    (hread : page.permission.readable = true) (hle : pos ≤ a) : ¬ e.Skipped addr a := by
  rintro ⟨-, hlt⟩
  have hskip := h.skip_le
  rw [gapOffset_of_readable hpage hread] at hskip
  have hadd := e.moduleBytes_add h.le hle
  omega

/-- In a range that fits every turn is good. -/
theorem RangeFits.turnGood (h : e.RangeFits addr size) (hcover : e.Covered addr size)
    (hmax : size ≤ maxArrayLength) (hturn : e.AtTurn addr pos) (hpos : pos < addr + size) :
    e.TurnGood addr size pos := by
  have hle := hturn.le
  obtain ⟨b, hb⟩ := hcover pos hle hpos
  obtain ⟨page, hpage⟩ := exists_page_of_imageByte hwf hb
  have hc := getAddressPage_bounds hpage
  cases hread : page.permission.readable with
  | true =>
    rw [turnGood_readable_iff hwf hno hpage hread hcover hmax hle hpos]
    have hnot := hturn.not_skipped hpage hread le_rfl
    rcases h.page pos page hle hpos hnot hpage hread with hfirst | hend
    · have hpageaddr := getAddressPage_of_contains hwf hno hpage hfirst
      rcases hturn.first with rfl | hbehind
      · omega
      · have hend := hbehind page hpageaddr
        omega
    · omega
  | false =>
    rw [turnGood_gap_iff hwf hno hpage hread hpos]
    intro a ha hlt hstop
    obtain ⟨b', hb'⟩ := hcover a (by omega) hstop
    by_cases hload : e.OverModule a
    · exact h.skipped a (by omega) hstop (hturn.skipped hwf hno hpage hread ha hlt hload)
    · exact imageByte_zero_of_not_overModule hwf hb' hload

/-- What a good turn leaves out is zero. -/
theorem AtTurn.skipped_zero (h : e.AtTurn addr pos) (hgood : e.TurnGood addr size pos)
    (hpage : e.getAddressPage pos = some page) (hle : pos ≤ a) (hnext : a < e.nextPos size pos)
    (hstop : a < addr + size) (hskip : e.Skipped addr a) : e.ImageByte a 0 := by
  cases hread : page.permission.readable with
  | true => exact absurd hskip (h.not_skipped hpage hread hle)
  | false =>
    rw [turnGood_gap_iff hwf hno hpage hread (by omega)] at hgood
    rw [nextPos_of_gap size hpage hread] at hnext
    have hc := getAddressPage_bounds hpage
    refine hgood a ?_ hnext hstop
    by_contra hlt
    have hpagea := getAddressPage_of_contains hwf hno hpage ((page.contains_iff a).mpr (by omega))
    have hreada := (overModule_iff_readable hwf hpagea).mp hskip.1
    rw [hread] at hreada
    cases hreada

/-- A page that a good turn reads is the first one or ends in the range. -/
theorem AtTurn.page_fits {q : MemPage} (h : e.AtTurn addr pos)
    (hgood : e.TurnGood addr size pos) (hcover : e.Covered addr size)
    (hmax : size ≤ maxArrayLength) (hpage : e.getAddressPage pos = some page) (hle : pos ≤ a)
    (hnext : a < e.nextPos size pos) (hstop : a < addr + size) (hskip : ¬ e.Skipped addr a)
    (hq : e.getAddressPage a = some q) (hreadq : q.permission.readable = true) :
    q.Contains addr ∨ q.address + q.size ≤ addr + size := by
  have hc := getAddressPage_bounds hpage
  have hge := h.le
  cases hread : page.permission.readable with
  | true =>
    rw [turnGood_readable_iff hwf hno hpage hread hcover hmax hge (by omega)] at hgood
    rw [nextPos_of_readable size hpage hread] at hnext
    obtain rfl : page = q := page_eq hwf hno hpage hq (x := a)
      ((page.contains_iff a).mpr (by omega)) (getAddressPage_eq_some hq).2
    by_cases hfirst : pos = addr
    · left
      rw [← hfirst]
      exact (getAddressPage_eq_some hpage).2
    · right
      omega
  | false =>
    rw [nextPos_of_gap size hpage hread] at hnext
    by_cases hend : page.address + page.size ≤ a
    · have hload := (overModule_iff_readable hwf hq).mpr hreadq
      exact absurd (h.skipped hwf hno hpage hread hend hnext hload) hskip
    · obtain rfl : page = q := page_eq hwf hno hpage hq (x := a)
        ((page.contains_iff a).mpr (by omega)) (getAddressPage_eq_some hq).2
      rw [hread] at hreadq
      cases hreadq

/-- Where every turn is good the range fits. -/
theorem rangeFits_of_turnGood (hcover : e.Covered addr size) (hmax : size ≤ maxArrayLength)
    (hgood : ∀ m, (e.nextPos size)^[m] addr < addr + size →
      e.TurnGood addr size ((e.nextPos size)^[m] addr)) : e.RangeFits addr size := by
  -- the turn that `a` falls into, and its page
  have hturn : ∀ a, addr ≤ a → a < addr + size → ∃ pos page, e.AtTurn addr pos ∧
      e.TurnGood addr size pos ∧ pos ≤ a ∧ a < e.nextPos size pos ∧
      e.getAddressPage pos = some page := by
    intro a hle hstop
    obtain ⟨m, hm, hnext⟩ := hcover.exists_turn (n := size) hwf le_rfl hle hstop hstop
    have hat := atTurn_iterate hwf hno hcover m (by omega)
    obtain ⟨b, hb⟩ := hcover _ hat.le (by omega)
    obtain ⟨page, hpage⟩ := exists_page_of_imageByte hwf hb
    exact ⟨_, page, hat, hgood m (by omega), hm, hnext, hpage⟩
  constructor
  · intro a hle hstop hskip
    obtain ⟨pos, page, hat, hgood, hpos, hnext, hpage⟩ := hturn a hle hstop
    exact hat.skipped_zero hwf hno hgood hpage hpos hnext hstop hskip
  · intro a q hle hstop hskip hq hreadq
    obtain ⟨pos, page, hat, hgood, hpos, hnext, hpage⟩ := hturn a hle hstop
    exact hat.page_fits hwf hno hgood hcover hmax hpage hpos hnext hstop hskip hq hreadq

end WellFormed

/-- A read returns the image exactly when the buffer can be allocated and every turn is good; where
the modules are in place and do not overlap, this is so when the range fits. -/
theorem readsImage_iff (e : ExeFS) (addr : ℤ) (size : ℕ) :
    (e.ReadsImage addr size ↔ size ≤ maxArrayLength ∧
      ∀ m, (e.nextPos size)^[m] addr < addr + size →
        e.TurnGood addr size ((e.nextPos size)^[m] addr)) ∧
    (e.WellFormed → e.NonOverlapping → e.Covered addr size →
      (e.ReadsImage addr size ↔ size ≤ maxArrayLength ∧ e.RangeFits addr size)) := by
  have hiff := e.readsImage_iff_turnGood addr size
  refine ⟨hiff, fun hwf hno hcover => ?_⟩
  rw [hiff]
  constructor
  · rintro ⟨hmax, hgood⟩
    exact ⟨hmax, rangeFits_of_turnGood hwf hno hcover hmax hgood⟩
  · rintro ⟨hmax, hfits⟩
    refine ⟨hmax, fun m hm => ?_⟩
    exact hfits.turnGood hwf hno hcover hmax (atTurn_iterate hwf hno hcover m hm) hm

/-! ### Two modules of two segments -/

/-- Three bytes in two segments. -/
def splitNso : Nso :=
  { textNso [] with
    segments := fun
      | .text => .create 0 [7] 0
      | .rodata => .create 1 [8, 9] 0
      | .rwdata => .create 3 [] 0 }

theorem wellFormed_split : (firstSlots 2 splitNso).WellFormed := by
  apply wellFormed_firstSlots 2
  · exact ⟨by decide, by decide, by decide, by decide⟩
  · intro t
    cases t <;> decide

theorem inImage_split {i : NsoTypeEnum} (h : (firstSlots 2 splitNso).InImage a i) :
    i = .rtld ∧ a < 3 ∨ i = .main ∧ 0x1000 ≤ a := by
  obtain ⟨nso, hnso, hle, hlt⟩ := (inImage_iff _ a i).mp h
  have hrtld : (firstSlots 2 splitNso).getNsoAddress .rtld = 0 := by decide
  have hmain : (firstSlots 2 splitNso).getNsoAddress .main = 0x1000 := by decide
  rw [nsoAt_firstSlots] at hnso
  cases i
  case rtld =>
    cases hnso
    have hend : splitNso.endAddress.toNat = 3 := by decide
    exact Or.inl ⟨rfl, by omega⟩
  case main => exact Or.inr ⟨rfl, by omega⟩
  all_goals cases hnso

theorem nonOverlapping_split : (firstSlots 2 splitNso).NonOverlapping := by
  intro a i j hi hj
  rcases inImage_split hi with ⟨rfl, hlt⟩ | ⟨rfl, hle⟩ <;>
    rcases inImage_split hj with ⟨rfl, hlt'⟩ | ⟨rfl, hle'⟩
  · rfl
  · omega
  · omega
  · rfl

theorem covered_split : (firstSlots 2 splitNso).Covered 0 3 := by
  intro a hle hlt
  obtain rfl | rfl | rfl : a = 0 ∨ a = 1 ∨ a = 2 := by omega
  · exact ⟨7, Or.inr ⟨.rtld, 0, .text, 0, rfl, by decide, by decide, rfl⟩⟩
  · exact ⟨8, Or.inr ⟨.rtld, 0, .rodata, 0, rfl, by decide, by decide, rfl⟩⟩
  · exact ⟨9, Or.inr ⟨.rtld, 0, .rodata, 1, rfl, by decide, by decide, rfl⟩⟩

theorem inGap_split : (firstSlots 2 splitNso).InGap 0xFFF :=
  ⟨⟨3, 0xFFD, .none⟩, by decide, rfl⟩

theorem covered_split_gap : (firstSlots 2 splitNso).Covered 0xFFF 2 := by
  intro a hle hlt
  obtain rfl | rfl : a = 0xFFF ∨ a = 0x1000 := by omega
  · exact ⟨0, Or.inl ⟨inGap_split, rfl⟩⟩
  · exact ⟨7, Or.inr ⟨.main, 1, .text, 0, rfl, by decide, by decide, rfl⟩⟩

/-- A range that ends in the middle of the second segment makes the read throw; a range that begins
at the end of the gap comes back as zeros. -/
theorem not_readsImage_split :
    ((firstSlots 2 splitNso).WellFormed ∧ (firstSlots 2 splitNso).NonOverlapping) ∧
    ((firstSlots 2 splitNso).Covered 0 2 ∧
      (firstSlots 2 splitNso).readExeFs 0 2 = some (.error .argument) ∧
      ¬ (firstSlots 2 splitNso).ReadsImage 0 2) ∧
    ((firstSlots 2 splitNso).Covered 0xFFF 2 ∧
      (firstSlots 2 splitNso).readExeFs 0xFFF 2 = some (.ok [0, 0]) ∧
      ¬ (firstSlots 2 splitNso).ReadsImage 0xFFF 2) := by
  have hthrows : (firstSlots 2 splitNso).readExeFs 0 2 = some (.error .argument) := by decide
  have hzeros : (firstSlots 2 splitNso).readExeFs 0xFFF 2 = some (.ok [0, 0]) := by decide
  refine ⟨⟨wellFormed_split, nonOverlapping_split⟩,
    ⟨fun a hle hlt => covered_split a hle (by omega), hthrows, ?_⟩,
    ⟨covered_split_gap, hzeros, ?_⟩⟩
  · rintro ⟨out, hread, -⟩
    change (firstSlots 2 splitNso).readExeFs 0 2 = _ at hread
    rw [hthrows] at hread
    cases hread
  · rintro ⟨out, hread, himage⟩
    change (firstSlots 2 splitNso).readExeFs 0xFFF 2 = _ at hread
    rw [hzeros] at hread
    cases hread
    rcases himage.2 1 0 rfl with ⟨⟨page, hpage, hperm⟩, -⟩ | ⟨i, r, t, off, hr, ha, hoff, hraw⟩
    · have hmain : (firstSlots 2 splitNso).getAddressPage 0x1000 = some ⟨0x1000, 1, .rx⟩ := by
        decide
      change (firstSlots 2 splitNso).getAddressPage 0x1000 = _ at hpage
      rw [hmain] at hpage
      cases hpage
      exact absurd hperm (by decide)
    · have hzero : ∀ (t : NsoSegmentType) (k : ℕ), (splitNso.segments t).rawData[k]? ≠ some 0 := by
        intro t k h
        have hmem := List.mem_of_getElem? h
        revert hmem
        cases t <;> decide
      exact hzero t off hraw

theorem readsImage_split : (firstSlots 2 splitNso).ReadsImage 0 3 := by
  refine ((readsImage_iff _ 0 3).2 wellFormed_split nonOverlapping_split covered_split).mpr
    ⟨by decide, fun a _ _ hskip => ?_, fun a page hle hlt _ hpage _ => ?_⟩
  · have hlt := hskip.2
    have hoff : (firstSlots 2 splitNso).gapOffset 0 = 0 := by decide
    omega
  · right
    obtain rfl | rfl | rfl : a = 0 ∨ a = 1 ∨ a = 2 := by omega
    all_goals
      cases hpage
      decide

end Sp2Module.ExeFS
