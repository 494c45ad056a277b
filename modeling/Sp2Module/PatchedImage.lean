import Sp2Module.Overrides
import Sp2Module.PatchRun
import Sp2Module.ReadExeFsRange

/-!
# The image a patch list leaves

For the modules a patch list is a list of writes to cells, a cell being a byte of a segment in a
slot. For the loaded game it is a list of writes to ranges of addresses. In both views a run
overrides the old contents in the order of the list: a byte is that of the last entry over it. A run
that is refused has performed the entries before the refused one.
-/

namespace Sp2Module

open NsoTypeEnum

/-- A byte of the segment of a slot. -/
structure Cell where
  slot : NsoTypeEnum
  segment : NsoSegmentType
  offset : ℕ
deriving DecidableEq, Repr

namespace ExeFS

variable {e e' : ExeFS} {c : Cell} {w : ResolvedWrite}

def cells (e : ExeFS) (c : Cell) : Option UInt8 :=
  (e.nsoAt c.slot).bind fun nso => (nso.segments c.segment).rawData[c.offset]?

theorem cells_of_nsos {i : NsoTypeEnum} {r : NsoRef} (h : e.nsos i = some r) (t : NsoSegmentType)
    (k : ℕ) : e.cells ⟨i, t, k⟩ = ((e.objects r).segments t).rawData[k]? := by
  simp only [cells, nsoAt, h, Option.map_some, Option.bind_some]

theorem cells_of_none {i : NsoTypeEnum} (h : e.nsos i = none) (t : NsoSegmentType) (k : ℕ) :
    e.cells ⟨i, t, k⟩ = none := by
  simp only [cells, nsoAt, h, Option.map_none, Option.bind_none]

/-- The cells a write sets, which are in every slot that holds its object. -/
def cellWrite (e : ExeFS) : Option ResolvedWrite → Cell → Option UInt8
  | none, _ => none
  | some w, c =>
    if e.nsos c.slot = some w.object ∧ c.segment = w.segment ∧ w.offset ≤ c.offset then
      w.bytes[c.offset - w.offset]?
    else none

theorem cellWrite_congr (h : e'.nsos = e.nsos) : e'.cellWrite = e.cellWrite := by
  funext w c
  cases w with
  | none => rfl
  | some w => simp only [cellWrite, h]

/-- A write overrides the cells it sets. -/
theorem cells_perform {place : Option ResolvedWrite} (h : ∀ w, place = some w → w.Fits e) :
    (e.perform place).cells = override e.cells (e.cellWrite place) := by
  cases place with
  | none => exact (override_none e.cells).symm
  | some w =>
    have hfit := h w rfl
    unfold ResolvedWrite.Fits at hfit
    funext ⟨i, t, k⟩
    cases hi : e.nsos i with
    | none =>
      rw [cells_of_none (by rw [← hi]; rfl), override, cells_of_none hi]
      simp [cellWrite, hi]
    | some r =>
      rw [cells_of_nsos (i := i) (r := r) (by rw [← hi]; rfl)]
      by_cases hrt : w.object = r ∧ w.segment = t
      · obtain ⟨rfl, rfl⟩ := hrt
        rw [segments_perform_same]
        simp only [override, cellWrite, hi, true_and, cells_of_nsos hi, NsoSegment.overlay]
        split_ifs with hle
        · by_cases hlt : k < w.offset + w.bytes.length
          · rw [getElem?_overwrite_inside hle hlt (by omega),
              List.getElem?_eq_getElem (by omega), Option.some_or]
          · rw [getElem?_overwrite_outside (by omega),
              List.getElem?_eq_none (l := w.bytes) (by omega), Option.none_or]
        · rw [getElem?_overwrite_outside (by omega), Option.none_or]
      · have hnone : e.cellWrite (some w) ⟨i, t, k⟩ = none := by
          rw [cellWrite, if_neg]
          rintro ⟨hobj, hseg, -⟩
          dsimp only at hobj hseg
          rw [hi] at hobj
          exact hrt ⟨(Option.some.inj hobj).symm, hseg.symm⟩
        rw [override_of_none hnone, segments_perform_of_ne hrt, cells_of_nsos hi]

/-- The writes of a list override the cells in its order. -/
theorem cells_performAll {ws : List (Option ResolvedWrite)} (h : ∀ w, some w ∈ ws → w.Fits e) :
    (e.performAll ws).cells = overrideAll e.cells (ws.map e.cellWrite) := by
  have hstep : ∀ place ∈ ws, ∀ z : ExeFS, z.SameLayout e →
      (z.perform place).cells = override z.cells (e.cellWrite place) ∧
        (z.perform place).SameLayout e := by
    intro place hplace z hz
    constructor
    · rw [cells_perform fun w hw => (h w (hw ▸ hplace)).congr hz, cellWrite_congr hz.nsos]
    · exact (z.sameLayout_perform place).trans hz
  exact (foldl_abstracts hstep (SameLayout.refl e)).1

/-! ### Addresses -/

/-- The cell is loaded at `a`. -/
def LoadedAt (e : ExeFS) (c : Cell) (a : ℤ) : Prop :=
  ∃ r, e.nsos c.slot = some r ∧
    a = e.getNsoAddress c.slot + (((e.objects r).segments c.segment).address.toNat + c.offset : ℕ) ∧
    c.offset < ((e.objects r).segments c.segment).rawData.length

/-- The byte of the first module over an address, `none` where no segment is loaded. -/
def memory (e : ExeFS) (a : ℤ) : Option UInt8 :=
  all.findSome? fun i => NsoSegmentType.all.findSome? fun t =>
    (e.nsoAt i).bind fun nso =>
      rangeWrite (e.getNsoAddress i + (nso.segments t).address.toNat) (nso.segments t).rawData a

theorem LoadedAt.congr (h : e'.SameLayout e) {a : ℤ} : e'.LoadedAt c a ↔ e.LoadedAt c a := by
  simp only [LoadedAt, h.nsos, h.getNsoAddress, Nso.address_congr (h.objects _),
    Nso.rawLength_congr (h.objects _)]

/-- In a game whose modules do not overlap an address has one cell at most. -/
theorem LoadedAt.unique (hwf : e.WellFormed) (hno : e.NonOverlapping) {c d : Cell} {a : ℤ}
    (hc : e.LoadedAt c a) (hd : e.LoadedAt d a) : c = d := by
  obtain ⟨i, t, k⟩ := c
  obtain ⟨j, u, l⟩ := d
  obtain ⟨r, hr, ha, hk⟩ := hc
  obtain ⟨r', hr', ha', hl⟩ := hd
  dsimp only at hr ha hk hr' ha' hl
  have hnso : e.nsoAt i = some (e.objects r) := nsoAt_eq_some.mpr ⟨r, hr, rfl⟩
  have hnso' : e.nsoAt j = some (e.objects r') := nsoAt_eq_some.mpr ⟨r', hr', rfl⟩
  have hwp := hwf.placed i _ hnso
  have hwp' := hwf.placed j _ hnso'
  have hsize := hwf.sized i _ hnso t
  have hsize' := hwf.sized j _ hnso' u
  have hend := hwp.segment_end_le t
  have hend' := hwp'.segment_end_le u
  have hin : e.InImage a i := by
    rw [inImage_iff]
    exact ⟨_, hnso, by rw [hwp.toNat_startAddress]; omega, by omega⟩
  have hin' : e.InImage a j := by
    rw [inImage_iff]
    exact ⟨_, hnso', by rw [hwp'.toNat_startAddress]; omega, by omega⟩
  obtain rfl := hno a i j hin hin'
  obtain rfl : r = r' := Option.some.inj (hr.symm.trans hr')
  obtain rfl : t = u := hwp.segment_disjoint (a := (a - e.getNsoAddress i).toNat)
    ⟨by omega, by omega⟩ ⟨by omega, by omega⟩
  obtain rfl : k = l := by omega
  rfl

theorem exists_loadedAt_of_memory {a : ℤ} {b : UInt8} (h : e.memory a = some b) :
    ∃ c, e.LoadedAt c a ∧ e.cells c = some b := by
  obtain ⟨i, -, hi⟩ := List.exists_of_findSome?_eq_some h
  obtain ⟨t, -, ht⟩ := List.exists_of_findSome?_eq_some hi
  obtain ⟨nso, hnso, hb⟩ := Option.bind_eq_some_iff.mp ht
  obtain ⟨r, hr, rfl⟩ := nsoAt_eq_some.mp hnso
  obtain ⟨hle, hlt⟩ : _ ∧ _ := by
    by_contra hout
    rw [rangeWrite_eq_none.mpr hout] at hb
    cases hb
  have hcell : e.cells ⟨i, t, (a - (e.getNsoAddress i +
      ((e.objects r).segments t).address.toNat)).toNat⟩ = some b := by
    rw [cells_of_nsos hr, ← hb, rangeWrite, if_pos hle]
  exact ⟨_, ⟨r, hr, by dsimp only; omega, by dsimp only; omega⟩, hcell⟩

theorem LoadedAt.exists_memory {a : ℤ} (h : e.LoadedAt c a) : ∃ b, e.memory a = some b := by
  obtain ⟨r, hr, ha, hk⟩ := h
  rw [← Option.isSome_iff_exists, memory, List.findSome?_isSome_iff]
  refine ⟨c.slot, mem_all _, ?_⟩
  rw [List.findSome?_isSome_iff]
  refine ⟨c.segment, NsoSegmentType.mem_all _, ?_⟩
  rw [nsoAt_eq_some.mpr ⟨r, hr, rfl⟩, Option.bind_some, Option.isSome_iff_ne_none, Ne,
    rangeWrite_eq_none]
  omega

/-- The byte at an address is that of its cell. -/
theorem LoadedAt.memory_eq (hwf : e.WellFormed) (hno : e.NonOverlapping) {a : ℤ}
    (h : e.LoadedAt c a) : e.memory a = e.cells c := by
  obtain ⟨b, hb⟩ := h.exists_memory
  obtain ⟨d, hd, hcell⟩ := exists_loadedAt_of_memory hb
  rw [hb, ← hcell, h.unique hwf hno hd]

theorem memory_eq_none {a : ℤ} (h : ∀ c, ¬ e.LoadedAt c a) : e.memory a = none := by
  cases hb : e.memory a with
  | none => rfl
  | some b =>
    obtain ⟨c, hc, -⟩ := exists_loadedAt_of_memory hb
    exact absurd hc (h c)

end ExeFS

namespace PatchEntry

variable {e e' : ExeFS} {symbols : Symbols} {p : PatchEntry} {ps : List PatchEntry}

/-- The addresses an entry sets: its range, or none where the entry is skipped. -/
def memoryWrite (e : ExeFS) (symbols : Symbols) (p : PatchEntry) : ℤ → Option UInt8 :=
  match p.address.getAddress e symbols, p.write e symbols with
  | .ok a, some w => rangeWrite a w.bytes
  | _, _ => fun _ => none

/-- The range of an entry is loaded from the cells its write sets. -/
theorem loadedAt_of_lands {w : ResolvedWrite} (h : p.Lands e symbols (some w)) (hfit : w.Fits e) :
    ∃ a i, p.address.getAddress e symbols = .ok a ∧ e.nsos i = some w.object ∧
      ∀ k < w.bytes.length, e.LoadedAt ⟨i, w.segment, w.offset + k⟩ (a + k) := by
  obtain ⟨a, i, ha, -, -, hi, -, hloc⟩ := h
  unfold ResolvedWrite.Fits at hfit
  refine ⟨a, i, ha, hi, fun k hk => ⟨w.object, hi, ?_, by dsimp only; omega⟩⟩
  dsimp only
  omega

/-- A cell is set by an entry as the address it is loaded at. -/
theorem cellWrite_eq_memoryWrite (hwf : e.WellFormed) (hno : e.NonOverlapping)
    (h : p.Resolves e symbols) {c : Cell} {x : ℤ} (hc : e.LoadedAt c x) :
    e.cellWrite (p.write e symbols) c = p.memoryWrite e symbols x := by
  obtain ⟨hlands, hfit⟩ := lands_of_resolve h.resolve_eq
  cases hw : p.write e symbols with
  | none =>
    cases ha : p.address.getAddress e symbols <;> simp [memoryWrite, hw, ha, ExeFS.cellWrite]
  | some w =>
    rw [hw] at hlands
    obtain ⟨a, i, ha, hi, hload⟩ := loadedAt_of_lands hlands (hfit w hw)
    simp only [memoryWrite, ha, hw]
    by_cases hx : a ≤ x ∧ x < a + w.bytes.length
    · have hcell := hload (x - a).toNat (by omega)
      have hxa : a + (x - a).toNat = x := by omega
      rw [hxa] at hcell
      obtain rfl := hc.unique hwf hno hcell
      rw [ExeFS.cellWrite, if_pos ⟨hi, rfl, Nat.le_add_right _ _⟩, rangeWrite, if_pos hx.1,
        Nat.add_sub_cancel_left]
    · rw [rangeWrite_eq_none.mpr hx, ExeFS.cellWrite]
      split_ifs with hset
      · obtain ⟨hobj, hseg, hle⟩ := hset
        rw [List.getElem?_eq_none_iff]
        by_contra hlt
        obtain rfl : c.slot = i := hwf.distinct _ _ _ hobj hi
        have hcell := hload (c.offset - w.offset) (by omega)
        obtain ⟨r, hr, hxc, -⟩ := hc
        obtain ⟨r', hr', hac, -⟩ := hcell
        dsimp only at hr' hac
        rw [hr] at hr'
        obtain rfl := Option.some.inj hr'
        rw [hseg] at hxc
        omega
      · rfl

/-- No entry sets an address where nothing is loaded. -/
theorem memoryWrite_eq_none (h : p.Resolves e symbols) {x : ℤ} (hx : ∀ c, ¬ e.LoadedAt c x) :
    p.memoryWrite e symbols x = none := by
  obtain ⟨hlands, hfit⟩ := lands_of_resolve h.resolve_eq
  cases hw : p.write e symbols with
  | none => cases ha : p.address.getAddress e symbols <;> simp [memoryWrite, hw, ha]
  | some w =>
    rw [hw] at hlands
    obtain ⟨a, i, ha, -, hload⟩ := loadedAt_of_lands hlands (hfit w hw)
    simp only [memoryWrite, ha, hw]
    rw [rangeWrite_eq_none]
    intro hin
    have hcell := hload (x - a).toNat (by omega)
    have hxa : a + (x - a).toNat = x := by omega
    rw [hxa] at hcell
    exact hx _ hcell

end PatchEntry

section Run

variable {e e' : ExeFS} {symbols : Symbols} {ps : List PatchEntry}

theorem fits_of_resolves (hres : ∀ p ∈ ps, p.Resolves e symbols) (w : ResolvedWrite)
    (hw : some w ∈ ps.map (·.write e symbols)) : w.Fits e := by
  obtain ⟨p, hp, hpw⟩ := List.mem_map.mp hw
  exact (PatchEntry.lands_of_resolve (hres p hp).resolve_eq).2 w hpw

/-- Entries that resolve override the cells in their order. -/
theorem cells_performAll_write (hres : ∀ p ∈ ps, p.Resolves e symbols) :
    (e.performAll (ps.map (·.write e symbols))).cells =
      overrideAll e.cells (ps.map fun p => e.cellWrite (p.write e symbols)) := by
  rw [ExeFS.cells_performAll (fits_of_resolves hres), List.map_map]
  rfl

theorem ExeFS.sameLayout_performAll (e : ExeFS) (ws : List (Option ResolvedWrite)) :
    (e.performAll ws).SameLayout e := by
  induction ws generalizing e with
  | nil => exact SameLayout.refl e
  | cons w ws ih => exact (ih (e.perform w)).trans (e.sameLayout_perform w)

theorem ExeFS.SameLayout.wellFormed (h : e'.SameLayout e) (hwf : e.WellFormed) :
    e'.WellFormed := by
  have hat : ∀ i nso, e'.nsoAt i = some nso →
      ∃ nso₀, e.nsoAt i = some nso₀ ∧ nso.layout = nso₀.layout := by
    intro i nso hnso
    obtain ⟨r, hr, rfl⟩ := nsoAt_eq_some.mp hnso
    rw [h.nsos] at hr
    exact ⟨e.objects r, nsoAt_eq_some.mpr ⟨r, hr, rfl⟩, h.objects r⟩
  constructor
  · intro i j r
    rw [h.nsos]
    exact hwf.distinct i j r
  · intro i nso hnso
    obtain ⟨nso₀, hnso₀, hl⟩ := hat i nso hnso
    obtain ⟨htext, hle, hle', hend⟩ := hwf.placed i nso₀ hnso₀
    constructor
    all_goals
      simpa only [Nso.textSegment, Nso.rodataSegment, Nso.rwdataSegment, Nso.address_congr hl,
        Nso.decompressedSize_congr hl, Nso.bssOrAlign_congr hl]
  · intro i nso hnso t
    obtain ⟨nso₀, hnso₀, hl⟩ := hat i nso hnso
    rw [Nso.rawLength_congr hl, Nso.decompressedSize_congr hl]
    exact hwf.sized i nso₀ hnso₀ t

theorem ExeFS.SameLayout.nonOverlapping (h : e'.SameLayout e) (hno : e.NonOverlapping) :
    e'.NonOverlapping := fun a i j hi hj =>
  hno a i j ((h.inImage a i).mp hi) ((h.inImage a j).mp hj)

/-- In a game whose modules do not overlap they override the loaded image, too. -/
theorem memory_performAll_write (hwf : e.WellFormed) (hno : e.NonOverlapping)
    (hres : ∀ p ∈ ps, p.Resolves e symbols) :
    (e.performAll (ps.map (·.write e symbols))).memory =
      overrideAll e.memory (ps.map (·.memoryWrite e symbols)) := by
  have hsame := e.sameLayout_performAll (ps.map (·.write e symbols))
  funext x
  by_cases hx : ∃ c, e.LoadedAt c x
  · obtain ⟨c, hc⟩ := hx
    rw [((ExeFS.LoadedAt.congr hsame).mpr hc).memory_eq (hsame.wellFormed hwf)
      (hsame.nonOverlapping hno), cells_performAll_write hres]
    exact overrideAll_map_congr (hc.memory_eq hwf hno).symm fun p hp =>
      PatchEntry.cellWrite_eq_memoryWrite hwf hno (hres p hp) hc
  · rw [not_exists] at hx
    rw [ExeFS.memory_eq_none fun c hc => hx c ((ExeFS.LoadedAt.congr hsame).mp hc),
      overrideAll_of_forall_none, ExeFS.memory_eq_none hx]
    intro w hw
    obtain ⟨p, hp, rfl⟩ := List.mem_map.mp hw
    exact PatchEntry.memoryWrite_eq_none (hres p hp) hx

/-- How far a run has come: all entries of `done` have been performed, and if any are left, the
first of them has been refused with the exception of the run. -/
structure RunOutcome (symbols : Symbols) (ps : List PatchEntry) (e : ExeFS)
    (result : EStateM.Result Exception ExeFS Unit) (done : List PatchEntry) (e' : ExeFS) :
    Prop where
  resolves : ∀ p ∈ done, p.Resolves e symbols
  final : e' = e.performAll (done.map (·.write e symbols))
  outcome : (ps = done ∧ result = .ok () e') ∨
    ∃ p rest x, ps = done ++ p :: rest ∧ p.resolve e symbols = .error x ∧ result = .error x e'

theorem exists_runOutcome (symbols : Symbols) (ps : List PatchEntry) (e : ExeFS) :
    ∃ done e', RunOutcome symbols ps e (applyPatches symbols ps e) done e' := by
  induction ps generalizing e with
  | nil => exact ⟨[], e, by simp, rfl, Or.inl ⟨rfl, rfl⟩⟩
  | cons p ps ih =>
    have hstep := p.apply_eq symbols e
    simp only [applyPatches, bind, EStateM.bind, hstep]
    cases hw : p.resolve e symbols with
    | error x => exact ⟨[], e, by simp, rfl, Or.inr ⟨p, ps, x, rfl, hw, rfl⟩⟩
    | ok w =>
      have hsame := e.sameLayout_perform w
      have hwrite : p.write e symbols = w := by simp only [PatchEntry.write, hw]
      obtain ⟨done, e', hres, hfinal, hout⟩ := ih (e.perform w)
      have hres' : ∀ q ∈ done, q.Resolves e symbols := fun q hq => by
        obtain ⟨v, hv⟩ := hres q hq
        exact ⟨v, by rw [← q.resolve_congr hsame, hv]⟩
      have hmap : done.map (·.write (e.perform w) symbols) = done.map (·.write e symbols) :=
        List.map_congr_left fun q _ => by simp only [PatchEntry.write, q.resolve_congr hsame]
      refine ⟨p :: done, e', ?_, ?_, ?_⟩
      · exact List.forall_mem_cons.mpr ⟨⟨w, hw⟩, hres'⟩
      · rw [hfinal, hmap, List.map_cons, hwrite]
        rfl
      · rcases hout with ⟨rfl, heq⟩ | ⟨q, rest, x, rfl, hq, heq⟩
        · exact Or.inl ⟨rfl, heq⟩
        · exact Or.inr ⟨q, rest, x, rfl, by rw [← q.resolve_congr hsame, hq], heq⟩

/-- However a run ends, what has been performed is a first part of the list, and the loaded image is
the old one with the ranges of that part overridden in their order. No address appears or
vanishes. -/
theorem memory_applyPatches (hwf : e.WellFormed) (hno : e.NonOverlapping) (symbols : Symbols)
    (ps : List PatchEntry) :
    ∃ done e', RunOutcome symbols ps e (applyPatches symbols ps e) done e' ∧
      e'.memory = overrideAll e.memory (done.map (·.memoryWrite e symbols)) ∧
      ∀ x, (e'.memory x).isSome = (e.memory x).isSome := by
  obtain ⟨done, e', hout⟩ := exists_runOutcome symbols ps e
  have hmem : e'.memory = overrideAll e.memory (done.map (·.memoryWrite e symbols)) := by
    rw [hout.final, memory_performAll_write hwf hno hout.resolves]
  refine ⟨done, e', hout, hmem, fun x => ?_⟩
  rw [hmem]
  apply isSome_overrideAll
  intro w hw hset
  obtain ⟨p, hp, rfl⟩ := List.mem_map.mp hw
  by_contra hnone
  have hx : ∀ c, ¬ e.LoadedAt c x := fun c hc => by
    obtain ⟨b, hb⟩ := hc.exists_memory
    rw [hb] at hnone
    exact hnone rfl
  rw [PatchEntry.memoryWrite_eq_none (hout.resolves p hp) hx] at hset
  cases hset

end Run

/-! ### Reading what has been patched -/

namespace ExeFS

variable {e : ExeFS} {T : NsoTypeEnum} {r : NsoRef} {t : NsoSegmentType} {off n : ℕ}

/-- The bytes of a range inside a segment are loaded. -/
theorem loadedAt_of_rangeIn (hwf : e.WellFormed) (hr : e.nsos T = some r)
    (hrange : (e.objects r).RangeIn t off n) {k : ℕ} (hk : k < n) :
    e.LoadedAt ⟨T, t, off - ((e.objects r).segments t).address.toNat + k⟩
      (e.getNsoAddress T + off + k) := by
  have hsize := hwf.sized T _ (nsoAt_eq_some.mpr ⟨r, hr, rfl⟩) t
  obtain ⟨hle, hend⟩ := hrange
  exact ⟨r, hr, by dsimp only; omega, by dsimp only; omega⟩

theorem LoadedAt.inImage (hwf : e.WellFormed) {c : Cell} {a : ℤ} (h : e.LoadedAt c a) :
    e.InImage a c.slot := by
  obtain ⟨r, hr, ha, hk⟩ := h
  have hnso : e.nsoAt c.slot = some (e.objects r) := nsoAt_eq_some.mpr ⟨r, hr, rfl⟩
  have hwp := hwf.placed _ _ hnso
  have hsize := hwf.sized _ _ hnso c.segment
  have hend := hwp.segment_end_le c.segment
  rw [inImage_iff]
  exact ⟨_, hnso, by rw [hwp.toNat_startAddress]; omega, by omega⟩

/-- Where a cell is loaded the image has the byte of the memory. -/
theorem LoadedAt.imageByte_iff (hwf : e.WellFormed) (hno : e.NonOverlapping) {c : Cell} {a : ℤ}
    {b : UInt8} (h : e.LoadedAt c a) : e.ImageByte a b ↔ e.memory a = some b := by
  rw [h.memory_eq hwf hno]
  constructor
  · rintro (⟨⟨page, hpage, hperm⟩, -⟩ | ⟨i, r, t, k, hr, ha, hk, hb⟩)
    · have hread := (overModule_iff_readable hwf hpage).mp ⟨_, h.inImage hwf⟩
      rw [hperm] at hread
      cases hread
    · have hsize := hwf.sized i _ (nsoAt_eq_some.mpr ⟨r, hr, rfl⟩) t
      have hcell : e.LoadedAt ⟨i, t, k⟩ a := ⟨r, hr, ha, by dsimp only; omega⟩
      rw [h.unique hwf hno hcell, cells_of_nsos hr, hb]
  · intro hb
    obtain ⟨r, hr, ha, hk⟩ := h
    have hsize := hwf.sized _ _ (nsoAt_eq_some.mpr ⟨r, hr, rfl⟩) c.segment
    exact Or.inr ⟨c.slot, r, c.segment, c.offset, hr, ha, by omega,
      (cells_of_nsos hr _ _).symm.trans hb⟩

/-- A range inside a segment is on one page. -/
theorem rangeFits_of_rangeIn (hwf : e.WellFormed) (hno : e.NonOverlapping)
    (hr : e.nsos T = some r) (hrange : (e.objects r).RangeIn t off n) :
    e.RangeFits (e.getNsoAddress T + off) n := by
  have hnso : e.nsoAt T = some (e.objects r) := nsoAt_eq_some.mpr ⟨r, hr, rfl⟩
  obtain ⟨hle, hend⟩ := hrange
  -- a page that is read over a byte of the range begins with the segment
  have hpage : ∀ a page, e.getNsoAddress T + off ≤ a → a < e.getNsoAddress T + off + n →
      e.getAddressPage a = some page → page.permission.readable = true →
      page.Contains (e.getNsoAddress T + off) := by
    intro a page hlo hhi hpage hread
    obtain ⟨hmem, hc⟩ := getAddressPage_eq_some hpage
    obtain ⟨i, nso, u, hof⟩ := exists_pageOf hwf.placed hmem hread
    have hin := (loadedAt_of_rangeIn hwf hr ⟨hle, hend⟩
      (k := (a - (e.getNsoAddress T + off)).toNat) (by omega)).inImage hwf
    have ha : e.getNsoAddress T + off + (a - (e.getNsoAddress T + off)).toNat = a := by omega
    rw [ha] at hin
    obtain rfl : T = i := hno a T i hin (hof.inImage a hc)
    obtain rfl : e.objects r = nso := Option.some.inj (hnso.symm.trans hof.nsoAt)
    have hoff : e.getNsoAddress T + (off + (a - (e.getNsoAddress T + off)).toNat : ℕ) = a := by
      omega
    obtain rfl : t = u := hof.segment t _ (hoff ▸ hc) ⟨by omega, by omega⟩
    have hbounds := (page.contains_iff a).mp hc
    have haddr := hof.address
    rw [MemPage.contains_iff]
    omega
  constructor
  · rintro a hlo hhi ⟨hover, hskip⟩
    exfalso
    have hin := (loadedAt_of_rangeIn hwf hr ⟨hle, hend⟩ (k := 0) (by omega)).inImage hwf
    rw [Nat.cast_zero, add_zero] at hin
    obtain ⟨page, hpage, -⟩ := exists_page_of_inImage hwf.placed hin
    rw [gapOffset_of_readable hpage ((overModule_iff_readable hwf hpage).mp ⟨T, hin⟩)] at hskip
    omega
  · intro a page hlo hhi _ hq hread
    exact Or.inl (hpage a page hlo hhi hq hread)

theorem readExeFs_of_rangeIn (hwf : e.WellFormed) (hno : e.NonOverlapping)
    (hr : e.nsos T = some r) (hrange : (e.objects r).RangeIn t off n) (hmax : n ≤ maxArrayLength) :
    ∃ out, e.readExeFs (e.getNsoAddress T + off) n = some (.ok out) ∧ out.length = n ∧
      ∀ k < n, out[k]? = e.memory (e.getNsoAddress T + off + k) := by
  have hload := fun k hk => loadedAt_of_rangeIn hwf hr hrange (k := k) hk
  have hcover : e.Covered (e.getNsoAddress T + off) n := by
    intro a hle hlt
    have hcell := hload (a - (e.getNsoAddress T + off)).toNat (by omega)
    obtain ⟨b, hb⟩ := hcell.exists_memory
    have ha : e.getNsoAddress T + off + (a - (e.getNsoAddress T + off)).toNat = a := by omega
    rw [ha] at hcell hb
    exact ⟨b, (hcell.imageByte_iff hwf hno).mpr hb⟩
  have hfits := rangeFits_of_rangeIn hwf hno hr hrange
  obtain ⟨out, hread, hlen, himage⟩ := (e.readsImage_iff_turnGood _ n).mpr ⟨hmax, fun m hm =>
    hfits.turnGood hwf hno hcover hmax (atTurn_iterate hwf hno hcover m hm) hm⟩
  refine ⟨out, hread, hlen, fun k hk => ?_⟩
  obtain ⟨b, hb⟩ : ∃ b, out[k]? = some b := ⟨_, List.getElem?_eq_getElem (by omega)⟩
  rw [hb, ((hload k hk).imageByte_iff hwf hno).mp (himage k b hb)]

end ExeFS

/-- After a completed run a read inside a segment returns, for each byte, what the last entry over
it has written, or what the same read returned before the run. -/
theorem readExeFs_applyPatches {e e' : ExeFS} {symbols : Symbols} {ps : List PatchEntry}
    {T : NsoTypeEnum} {r : NsoRef} {t : NsoSegmentType} {off n : ℕ} (hwf : e.WellFormed)
    (hno : e.NonOverlapping) (hrun : applyPatches symbols ps e = .ok () e')
    (hr : e.nsos T = some r) (hrange : (e.objects r).RangeIn t off n) (hmax : n ≤ maxArrayLength) :
    ∃ before after, e.readExeFs (e.getNsoAddress T + off) n = some (.ok before) ∧
      e'.readExeFs (e.getNsoAddress T + off) n = some (.ok after) ∧ after.length = n ∧
      ∀ k < n,
        ((∀ p ∈ ps, p.memoryWrite e symbols (e.getNsoAddress T + off + k) = none) ∧
          after[k]? = before[k]?) ∨
        ∃ us p vs b, ps = us ++ p :: vs ∧
          p.memoryWrite e symbols (e.getNsoAddress T + off + k) = some b ∧
          (∀ q ∈ vs, q.memoryWrite e symbols (e.getNsoAddress T + off + k) = none) ∧
          after[k]? = some b := by
  obtain ⟨hres, rfl⟩ := applyPatches_eq_ok_iff.mp hrun
  have hsame := e.sameLayout_performAll (ps.map (·.write e symbols))
  have hrange' : ((e.performAll (ps.map (·.write e symbols))).objects r).RangeIn t off n := by
    unfold Nso.RangeIn at hrange ⊢
    rwa [Nso.address_congr (hsame.objects r), Nso.decompressedSize_congr (hsame.objects r)]
  obtain ⟨before, hbefore, -, hold⟩ := ExeFS.readExeFs_of_rangeIn hwf hno hr hrange hmax
  obtain ⟨after, hafter, hlen, hnew⟩ := ExeFS.readExeFs_of_rangeIn (hsame.wellFormed hwf)
    (hsame.nonOverlapping hno) (hsame.nsos ▸ hr) hrange' hmax
  rw [hsame.getNsoAddress] at hafter
  refine ⟨before, after, hbefore, hafter, hlen, fun k hk => ?_⟩
  rw [hnew k hk, hold k hk, hsame.getNsoAddress, memory_performAll_write hwf hno hres]
  rcases overrideAll_cases e.memory (ps.map (·.memoryWrite e symbols))
    (e.getNsoAddress T + off + k) with ⟨hnone, hkeep⟩ | ⟨us, w, vs, b, hps, hw, hlast, hval⟩
  · exact Or.inl ⟨fun p hp => hnone _ (List.mem_map_of_mem hp), hkeep⟩
  · obtain ⟨us', rest, rfl, -, hrest⟩ := List.map_eq_append_iff.mp hps
    obtain ⟨p, vs', rfl, rfl, rfl⟩ := List.map_eq_cons_iff.mp hrest
    exact Or.inr ⟨us', p, vs', b, rfl, hw, fun q hq => hlast _ (List.mem_map_of_mem hq), hval⟩

/-- Two entries over one byte of main. -/
def overlappingEntries : List PatchEntry :=
  [⟨.offset .main 1, .data [1, 2]⟩, ⟨.offset .main 2, .data [3]⟩]

/-- A game of two modules with segments of their own. -/
def splitGame : ExeFS := ExeFS.firstSlots 2 ExeFS.splitNso

theorem memory_applyPatches_split : ∃ done e',
    RunOutcome [] gapAndMain splitGame (applyPatches [] gapAndMain splitGame) done e' ∧
    e'.memory = overrideAll splitGame.memory (done.map (·.memoryWrite splitGame [])) ∧
    ∀ x, (e'.memory x).isSome = (splitGame.memory x).isSome :=
  memory_applyPatches ExeFS.wellFormed_split ExeFS.nonOverlapping_split [] gapAndMain

theorem readExeFs_applyPatches_split : ∃ e',
    applyPatches [] overlappingEntries splitGame = .ok () e' ∧
    ∃ before after, splitGame.readExeFs 0x1001 2 = some (.ok before) ∧
      e'.readExeFs 0x1001 2 = some (.ok after) ∧ after.length = 2 := by
  have hres : ∀ p ∈ overlappingEntries, p.Resolves splitGame [] := by
    simp only [overlappingEntries, List.forall_mem_cons]
    exact ⟨⟨some ⟨1, .rodata, 0, [1, 2]⟩, by decide⟩, ⟨some ⟨1, .rodata, 1, [3]⟩, by decide⟩,
      by simp⟩
  have hrun := applyPatches_eq_ok_iff.mpr ⟨hres, rfl⟩
  have hbase : (ExeFS.firstSlots 2 ExeFS.splitNso).getNsoAddress .main = 0x1000 := by decide
  obtain ⟨before, after, hbefore, hafter, hlen, -⟩ := readExeFs_applyPatches
    (n := 2) (r := 1) (T := .main) (t := .rodata)
    ExeFS.wellFormed_split ExeFS.nonOverlapping_split hrun rfl
    (⟨by decide, by decide⟩ : ExeFS.splitNso.RangeIn .rodata 1 2) (by decide)
  rw [hbase] at hbefore hafter
  exact ⟨_, hrun, before, after, hbefore, hafter, hlen⟩

end Sp2Module
