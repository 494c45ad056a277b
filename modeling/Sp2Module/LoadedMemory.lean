import Sp2Module.MemoryPages
import Sp2Module.ModuleAgreement

/-!
# The memory of a process with a game

Modules that do not overlap can be loaded at any address behind which there is room for them: every
byte has the permission of the page over it, and `svcQueryMemory` reports the bytes around an
address that have the same permission.
-/

namespace Sp2Module

open NsoTypeEnum ProcessMemory

namespace ProcessMemory

/-- The largest region of one permission around an address. -/
def queryMemory (perm : ℕ → SegPerm) (a : UInt64) : MemoryInfo :=
  let first := runFirst perm (perm a.toNat) a.toNat
  let stop := runStop perm (perm a.toNat) (2 ^ 64 - a.toNat) a.toNat
  ⟨UInt64.ofNat first, UInt64.ofNat (stop - first), perm a.toNat⟩

section Query

variable {perm : ℕ → SegPerm} {x y : ℕ}

theorem addr_queryMemory (perm : ℕ → SegPerm) (a : UInt64) :
    (queryMemory perm a).addr.toNat = runFirst perm (perm a.toNat) a.toNat := by
  have ha := a.toNat_lt
  have hle := (runFirst_spec perm (perm a.toNat) a.toNat).1
  exact UInt64.toNat_ofNat_of_lt' (show _ < 2 ^ 64 by omega)

theorem perm_eq_of_region {a : UInt64} (hx : runFirst perm (perm a.toNat) a.toNat ≤ x)
    (hlt : x < runStop perm (perm a.toNat) (2 ^ 64 - a.toNat) a.toNat) :
    perm x = perm a.toNat := by
  rcases Nat.lt_or_ge x a.toNat with hxa | hxa
  · exact (runFirst_spec perm (perm a.toNat) a.toNat).2.1 x hx hxa
  · exact (runStop_spec perm (perm a.toNat) (2 ^ 64 - a.toNat) a.toNat).2.2.1 x hxa hlt

variable (hx : x < 2 ^ 64) (hy : y < 2 ^ 64) (hxy : perm x ≠ perm y)
include hx hy hxy

theorem stop_queryMemory (a : UInt64) : (queryMemory perm a).stop =
    runStop perm (perm a.toNat) (2 ^ 64 - a.toNat) a.toNat := by
  have hfirst := (runFirst_spec perm (perm a.toNat) a.toNat).1
  obtain ⟨hle, hstop, -⟩ := runStop_spec perm (perm a.toNat) (2 ^ 64 - a.toNat) a.toNat
  have ha := a.toNat_lt
  -- two permissions differ, so that the size of a region fits in 64 bits
  have hsize : runStop perm (perm a.toNat) (2 ^ 64 - a.toNat) a.toNat -
      runFirst perm (perm a.toNat) a.toNat < 2 ^ 64 := by
    by_contra hge
    exact hxy ((perm_eq_of_region (by omega) (by omega)).trans
      (perm_eq_of_region (a := a) (by omega) (by omega)).symm)
  rw [MemoryInfo.stop, addr_queryMemory]
  simp only [queryMemory]
  rw [UInt64.toNat_ofNat_of_lt' hsize]
  omega

/-- A memory is reported in this way, unless one region is all of it. -/
theorem queries_queryMemory : Queries (queryMemory perm) perm := by
  have hstop := stop_queryMemory hx hy hxy
  constructor
  · intro a
    have ha := a.toNat_lt
    obtain ⟨hle, -, -, hne⟩ := runStop_spec perm (perm a.toNat) (2 ^ 64 - a.toNat) a.toNat
    rw [addr_queryMemory, hstop]
    refine ⟨(runFirst_spec perm (perm a.toNat) a.toNat).1, ?_⟩
    by_contra hge
    have heq : runStop perm (perm a.toNat) (2 ^ 64 - a.toNat) a.toNat = a.toNat := by omega
    exact hne (by omega) (by rw [heq])
  · intro a
    have ha := a.toNat_lt
    have hle := (runStop_spec perm (perm a.toNat) (2 ^ 64 - a.toNat) a.toNat).2.1
    rw [hstop]
    omega
  · intro a z hz hlt
    rw [addr_queryMemory] at hz
    rw [hstop] at hlt
    exact perm_eq_of_region hz hlt
  · intro a z hrx hz
    rw [addr_queryMemory] at hz
    rw [← hrx]
    exact (runFirst_spec perm (perm a.toNat) a.toNat).2.2 z hz
  · intro a hrx hlt
    have ha := a.toNat_lt
    rw [hstop] at hlt ⊢
    rw [← hrx]
    exact (runStop_spec perm (perm a.toNat) (2 ^ 64 - a.toNat) a.toNat).2.2.2 (by omega)

end Query

end ProcessMemory

namespace ExeFS

variable {e : ExeFS} {i j : NsoTypeEnum} {base : UInt64} {perm : ℕ → SegPerm}

/-- Modules in ascending order do not overlap. -/
theorem nonOverlapping_of_end_le (h : ∀ i nso j nso', i.index < j.index →
    e.nsoAt i = some nso → e.nsoAt j = some nso' →
      e.getNsoAddress i + nso.endAddress.toNat ≤ e.getNsoAddress j) : e.NonOverlapping := by
  have hlt : ∀ a i j, i.index < j.index → e.InImage a i → ¬ e.InImage a j := by
    intro a i j hij hi hj
    rw [inImage_iff] at hi hj
    obtain ⟨nso, hnso, -, hlt⟩ := hi
    obtain ⟨nso', hnso', hle, -⟩ := hj
    have hend := h i nso j nso' hij hnso hnso'
    omega
  intro a i j hi hj
  apply index_injective
  by_contra hne
  rcases Nat.lt_or_gt_of_ne hne with hij | hij
  · exact hlt a i j hij hi hj
  · exact hlt a j i hij hj hi

/-- Well placed modules with code, none over another one, that have room behind `base`. -/
structure LoadableAt (e : ExeFS) (base : UInt64) : Prop where
  placed : ∀ i nso, e.nsoAt i = some nso → nso.WellPlaced
  code : ∀ i nso, e.nsoAt i = some nso → 0 < nso.rodataSegment.address.toNat
  nonOverlapping : e.NonOverlapping
  end_le : ∀ i nso, e.nsoAt i = some nso →
    base.toNat + e.getNsoAddress i + nso.endAddress.toNat ≤ 2 ^ 64

/-- The permission of the page over an address in the process. -/
def permissionAt (e : ExeFS) (base : UInt64) (x : ℕ) : SegPerm :=
  match e.getAddressPage ((x : ℤ) - base.toNat) with
  | some page => page.permission
  | none => .none

namespace LoadableAt

variable (h : e.LoadableAt base)
include h

theorem inImage_of_inModule {addr : ℤ} (hi : e.InModule i addr) : e.InImage addr i := by
  obtain ⟨nso, hnso, page, hpage, hc⟩ := hi
  have hp := h.placed i nso hnso
  refine inImage_of_mem_modulePages hnso hp hpage hc fun hnone => ?_
  -- there is no gap before the start of the module itself
  rcases (mem_modulePages hp).mp hpage with ⟨hlt, -⟩ | rfl | rfl | rfl
  · rw [hp.toNat_startAddress] at hlt
    omega
  all_goals cases hnone

theorem loadable : e.Loadable where
  text i nso hi := UInt32.toNat_inj.mp (h.placed i nso hi).toNat_startAddress
  rodata := h.code
  apart i j addr hi hj :=
    h.nonOverlapping addr i j (h.inImage_of_inModule hi) (h.inImage_of_inModule hj)

theorem loaded : e.Loaded base (e.permissionAt base) where
  mapped page hpage x hc := by
    rw [permissionAt, h.nonOverlapping.getAddressPage_eq h.placed hpage hc]
  only x _ hrx := by
    rw [permissionAt] at hrx
    cases hpage : e.getAddressPage ((x : ℤ) - base.toNat) with
    | none =>
      rw [hpage] at hrx
      cases hrx
    | some page =>
      rw [hpage] at hrx
      obtain ⟨hmem, hc⟩ := getAddressPage_eq_some hpage
      exact ⟨page, hmem, hrx, hc⟩
  le page hpage := by
    obtain ⟨i, nso, acc, hnso, hmod⟩ := exists_modulePages all 0 hpage
    have hp := h.placed i nso hnso
    have hend := h.end_le i nso hnso
    have hsum := hp.toNat_endAddress
    have hle := hp.text_le
    have hle' := hp.rodata_le
    rcases (mem_modulePages hp).mp hmod with ⟨-, rfl⟩ | rfl | rfl | rfl <;> dsimp only <;> omega

end LoadableAt

/-- A process with a module, and nothing before it, has a memory that can be queried. -/
theorem Loaded.queries (hl : e.Loaded base perm) (h : e.Loadable) (hbase : 0 < base.toNat)
    (hj : (e.nsos j).isSome) : Queries (queryMemory perm) perm := by
  obtain ⟨r, hr⟩ := Option.isSome_iff_exists.mp hj
  have hnso : e.nsoAt j = some (e.objects r) := nsoAt_eq_some.mpr ⟨r, hr, rfl⟩
  have hpos := h.rodata j _ hnso
  have hlt := hl.loadAddress_lt h hj
  have hrx : perm (e.loadAddress base j) = .rx :=
    (hl.executable_iff h hlt).mpr ⟨j, _, hnso, le_rfl, by omega⟩
  refine queries_queryMemory (y := 0) hlt (by decide) fun hzero => ?_
  obtain ⟨i, nso, -, hle, -⟩ := (hl.executable_iff h (by decide)).mp (hzero.symm.trans hrx)
  rw [loadAddress] at hle
  omega

end ExeFS

end Sp2Module
