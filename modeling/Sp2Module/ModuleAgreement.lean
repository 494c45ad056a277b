import Sp2Module.AddSdk
import Sp2Module.ProcessMemory

/-!
# Agreement on where modules are

The patcher finds a module by its slot and the injected module by the number of its executable
region. A region starts at every module whose code does not directly follow the code of another
module, so the two agree exactly when these are the old modules `rtld`, `main` and `sdk` and the
custom one.
-/

namespace Sp2Module

open NsoTypeEnum ProcessMemory

/-- The cast to a 64-bit address. -/
def ulongOfLong (x : ℤ) : UInt64 := UInt64.ofNat (x % 2 ^ 64).toNat

namespace ExeFS

variable {e : ExeFS} {i j : NsoTypeEnum} {nso : Nso}

/-- The pages of the module in slot `i` cover `addr`. -/
def InModule (e : ExeFS) (i : NsoTypeEnum) (addr : ℤ) : Prop :=
  ∃ nso, e.nsoAt i = some nso ∧
    ∃ page ∈ e.modulePages i nso (e.getNsoAddress i + nso.startAddress.toNat), page.Contains addr

/-- Modules whose code is at their start and not empty, none of them over another one. -/
structure Loadable (e : ExeFS) : Prop where
  text : ∀ i nso, e.nsoAt i = some nso → nso.startAddress = 0
  rodata : ∀ i nso, e.nsoAt i = some nso → 0 < nso.rodataSegment.address.toNat
  apart : ∀ i j addr, e.InModule i addr → e.InModule j addr → i = j

/-- The memory of a process into which the modules have been loaded at `base`. -/
structure Loaded (e : ExeFS) (base : UInt64) (perm : ℕ → SegPerm) : Prop where
  mapped : ∀ page ∈ e.getMemoryMap, ∀ x : ℕ, page.Contains ((x : ℤ) - base.toNat) →
    perm x = page.permission
  only : ∀ x : ℕ, x < 2 ^ 64 → perm x = .rx →
    ∃ page ∈ e.getMemoryMap, page.permission = .rx ∧ page.Contains ((x : ℤ) - base.toNat)
  le : ∀ page ∈ e.getMemoryMap, base.toNat + page.address + page.size ≤ 2 ^ 64

/-! ### Executable pages -/

/-- The executable page of a module. -/
def textPage (e : ExeFS) (i : NsoTypeEnum) (nso : Nso) : MemPage :=
  ⟨e.getNsoAddress i + nso.startAddress.toNat,
    e.getNsoAddress i + nso.rodataSegment.address.toNat -
      (e.getNsoAddress i + nso.startAddress.toNat), .rx⟩

theorem mem_modulePages_rx {page : MemPage} (acc : ℤ) :
    page ∈ e.modulePages i nso acc ∧ page.permission = .rx ↔ page = e.textPage i nso := by
  constructor
  · rintro ⟨hmem, hrx⟩
    simp only [modulePages, List.mem_append, List.mem_cons, List.not_mem_nil, or_false] at hmem
    rcases hmem with hgap | rfl | rfl | rfl
    · split_ifs at hgap
      · rw [List.mem_singleton] at hgap
        subst hgap
        cases hrx
      · simp at hgap
    · rfl
    · cases hrx
    · cases hrx
  · rintro rfl
    exact ⟨List.mem_append_right _ List.mem_cons_self, rfl⟩

theorem mem_memoryMapFrom_rx {page : MemPage} (is : List NsoTypeEnum) (acc : ℤ) :
    page ∈ e.memoryMapFrom is acc ∧ page.permission = .rx ↔
      ∃ i ∈ is, ∃ nso, e.nsoAt i = some nso ∧ page = e.textPage i nso := by
  induction is generalizing acc with
  | nil => simp [memoryMapFrom]
  | cons i is ih =>
    simp only [memoryMapFrom, List.exists_mem_cons_iff]
    cases hi : e.nsoAt i with
    | none =>
      rw [ih]
      simp
    | some nso =>
      rw [List.mem_append, or_and_right, mem_modulePages_rx, ih]
      simp

/-- The executable pages of the memory map are those of the modules. -/
theorem mem_getMemoryMap_rx {page : MemPage} :
    page ∈ e.getMemoryMap ∧ page.permission = .rx ↔
      ∃ i nso, e.nsoAt i = some nso ∧ page = e.textPage i nso := by
  rw [getMemoryMap, mem_memoryMapFrom_rx]
  simp

namespace Loadable

variable (h : e.Loadable)
include h

theorem contains_textPage (hi : e.nsoAt i = some nso) (addr : ℤ) :
    (e.textPage i nso).Contains addr ↔ e.getNsoAddress i ≤ addr ∧
      addr < e.getNsoAddress i + nso.rodataSegment.address.toNat := by
  have hzero : nso.startAddress.toNat = 0 := by rw [h.text i nso hi]; rfl
  simp only [MemPage.contains_iff, textPage, hzero]
  omega

theorem inModule_of_text (hi : e.nsoAt i = some nso) {addr : ℤ} (hle : e.getNsoAddress i ≤ addr)
    (hlt : addr < e.getNsoAddress i + nso.rodataSegment.address.toNat) : e.InModule i addr :=
  ⟨nso, hi, e.textPage i nso, ((mem_modulePages_rx _).mpr rfl).1,
    (h.contains_textPage hi addr).mpr ⟨hle, hlt⟩⟩

/-- The code of a module ends before the next module starts. -/
theorem text_le (hi : e.nsoAt i = some nso) (hj : (e.nsos j).isSome) (hij : i.index < j.index) :
    e.getNsoAddress i + nso.rodataSegment.address.toNat ≤ e.getNsoAddress j := by
  obtain ⟨r, hr⟩ := Option.isSome_iff_exists.mp hj
  have hnso : e.nsoAt j = some (e.objects r) := nsoAt_eq_some.mpr ⟨r, hr, rfl⟩
  have hpos := h.rodata j _ hnso
  have hmono := e.getNsoAddress_mono hij.le
  by_contra hlt
  have heq := h.apart i j (e.getNsoAddress j) (h.inModule_of_text hi hmono (by omega))
    (h.inModule_of_text hnso le_rfl (by omega))
  subst heq
  omega

theorem getNsoAddress_lt (hi : (e.nsos i).isSome) (hj : (e.nsos j).isSome)
    (hij : i.index < j.index) : e.getNsoAddress i < e.getNsoAddress j := by
  obtain ⟨r, hr⟩ := Option.isSome_iff_exists.mp hi
  have hnso : e.nsoAt i = some (e.objects r) := nsoAt_eq_some.mpr ⟨r, hr, rfl⟩
  have hpos := h.rodata i _ hnso
  have hle := h.text_le hnso hj hij
  omega

theorem getNsoAddress_injective (hi : (e.nsos i).isSome) (hj : (e.nsos j).isSome)
    (heq : e.getNsoAddress i = e.getNsoAddress j) : i = j := by
  apply index_injective
  by_contra hne
  rcases Nat.lt_or_gt_of_ne hne with hlt | hlt
  · exact (h.getNsoAddress_lt hi hj hlt).ne heq
  · exact (h.getNsoAddress_lt hj hi hlt).ne heq.symm

end Loadable

/-! ### Where the executable regions start -/

/-- The module starts directly behind the code of another one. -/
def Adjoins (e : ExeFS) (j : NsoTypeEnum) : Prop :=
  ∃ i ∈ all, ∃ nso ∈ e.nsoAt i,
    e.getNsoAddress i + nso.rodataSegment.address.toNat = e.getNsoAddress j

instance (e : ExeFS) (j : NsoTypeEnum) : Decidable (e.Adjoins j) :=
  inferInstanceAs (Decidable (∃ i ∈ all, ∃ nso ∈ e.nsoAt i, _ = _))

/-- The modules with which an executable region starts. -/
def regionSlots (e : ExeFS) : List NsoTypeEnum :=
  all.filter fun j => (e.nsos j).isSome ∧ ¬ e.Adjoins j

theorem mem_regionSlots : j ∈ e.regionSlots ↔ (e.nsos j).isSome ∧ ¬ e.Adjoins j := by
  simp [regionSlots]

/-- The address at which the module in a slot has been loaded. -/
def loadAddress (e : ExeFS) (base : UInt64) (j : NsoTypeEnum) : ℕ :=
  base.toNat + (e.getNsoAddress j).toNat

section Loaded

variable {base : UInt64} {perm : ℕ → SegPerm} (h : e.Loadable) (hl : e.Loaded base perm)
include h hl

theorem Loaded.executable_iff {x : ℕ} (hx : x < 2 ^ 64) :
    perm x = .rx ↔ ∃ i nso, e.nsoAt i = some nso ∧ e.loadAddress base i ≤ x ∧
      x < e.loadAddress base i + nso.rodataSegment.address.toNat := by
  have hcontains : ∀ i nso, e.nsoAt i = some nso →
      ((e.textPage i nso).Contains ((x : ℤ) - base.toNat) ↔ e.loadAddress base i ≤ x ∧
        x < e.loadAddress base i + nso.rodataSegment.address.toNat) := by
    intro i nso hi
    have hnonneg := e.getNsoAddress_nonneg i
    rw [h.contains_textPage hi, loadAddress]
    omega
  constructor
  · intro hperm
    obtain ⟨page, hpage, hrx, hc⟩ := hl.only x hx hperm
    obtain ⟨i, nso, hi, rfl⟩ := mem_getMemoryMap_rx.mp ⟨hpage, hrx⟩
    exact ⟨i, nso, hi, (hcontains i nso hi).mp hc⟩
  · rintro ⟨i, nso, hi, hx⟩
    obtain ⟨hpage, hrx⟩ := mem_getMemoryMap_rx.mpr ⟨i, nso, hi, rfl⟩
    rw [hl.mapped _ hpage x ((hcontains i nso hi).mpr hx), hrx]

theorem Loaded.loadAddress_lt (hj : (e.nsos j).isSome) : e.loadAddress base j < 2 ^ 64 := by
  obtain ⟨r, hr⟩ := Option.isSome_iff_exists.mp hj
  have hnso : e.nsoAt j = some (e.objects r) := nsoAt_eq_some.mpr ⟨r, hr, rfl⟩
  have hpos := h.rodata j _ hnso
  have hnonneg := e.getNsoAddress_nonneg j
  have hle := hl.le _ (mem_getMemoryMap_rx.mpr ⟨j, _, hnso, rfl⟩).1
  simp only [textPage] at hle
  rw [loadAddress]
  omega

/-- A region starts at a module exactly when its code does not follow that of another one. -/
theorem Loaded.runStart_iff {x : ℕ} (hx : x < 2 ^ 64) :
    RunStart (Executable perm) x ↔ ∃ j ∈ e.regionSlots, e.loadAddress base j = x := by
  constructor
  · rintro ⟨hperm, hprev⟩
    obtain ⟨j, nso, hj, hle, hlt⟩ := (hl.executable_iff h hx).mp hperm
    have hsome : (e.nsos j).isSome := by
      obtain ⟨r, hr, -⟩ := nsoAt_eq_some.mp hj
      rw [hr]
      rfl
    have heq : e.loadAddress base j = x := by
      by_contra hne
      exact hprev (x - 1) (by omega)
        ((hl.executable_iff h (by omega)).mpr ⟨j, nso, hj, by omega, by omega⟩)
    refine ⟨j, mem_regionSlots.mpr ⟨hsome, ?_⟩, heq⟩
    rintro ⟨i, -, nso', hi, hadj⟩
    have hpos := h.rodata i nso' hi
    have hnonneg := e.getNsoAddress_nonneg i
    simp only [loadAddress] at heq
    refine hprev (x - 1) (by omega) ((hl.executable_iff h (by omega)).mpr ⟨i, nso', hi, ?_⟩)
    rw [loadAddress]
    omega
  · rintro ⟨j, hj, rfl⟩
    obtain ⟨hsome, hadj⟩ := mem_regionSlots.mp hj
    obtain ⟨r, hr⟩ := Option.isSome_iff_exists.mp hsome
    have hnso : e.nsoAt j = some (e.objects r) := nsoAt_eq_some.mpr ⟨r, hr, rfl⟩
    have hpos := h.rodata j _ hnso
    refine ⟨(hl.executable_iff h hx).mpr ⟨j, _, hnso, le_rfl, by omega⟩, fun y hy hperm => ?_⟩
    obtain ⟨i, nso', hi, hle, hlt⟩ := (hl.executable_iff h (by omega)).mp hperm
    -- the module over the previous byte is an earlier one, and its code ends here
    have hi_nonneg := e.getNsoAddress_nonneg i
    have hj_nonneg := e.getNsoAddress_nonneg j
    have hij : i.index < j.index := by
      by_contra hge
      have hmono := e.getNsoAddress_mono (Nat.le_of_not_lt hge)
      simp only [loadAddress] at hle hy
      omega
    have hend := h.text_le hi hsome hij
    refine hadj ⟨i, mem_all i, nso', hi, ?_⟩
    simp only [loadAddress] at hlt hy
    omega

theorem Loaded.runStarts : RunStarts (Executable perm) (2 ^ 64) 0
    (e.regionSlots.map (e.loadAddress base)) := by
  constructor
  · rw [List.pairwise_map]
    refine (sorted_all.filter _).imp_of_mem fun {i j} hi hj hij => ?_
    have hlt := h.getNsoAddress_lt (mem_regionSlots.mp hi).1 (mem_regionSlots.mp hj).1 hij
    have hnonneg := e.getNsoAddress_nonneg i
    simp only [loadAddress]
    omega
  · intro x
    rw [List.mem_map]
    constructor
    · rintro ⟨j, hj, rfl⟩
      have hlt := hl.loadAddress_lt h (mem_regionSlots.mp hj).1
      exact ⟨(hl.runStart_iff h hlt).mpr ⟨j, hj, rfl⟩, Nat.zero_le _, hlt⟩
    · rintro ⟨hstart, -, hlt⟩
      exact (hl.runStart_iff h hlt).mp hstart

end Loaded

/-! ### Agreement -/

/-- The slot the patcher uses for the module that a function is named after. -/
def fnSlot : AddrFn → NsoTypeEnum
  | .rtldAddr => rtld
  | .mainAddr => main
  | .sdkAddr => subsdk0
  | .thisAddr => sdk

/-- However the four functions are called, each call gives the address of its module in the memory
map, moved to `base`, plus the offset it was called with. -/
def Agrees (e : ExeFS) (base : UInt64) (query : UInt64 → MemoryInfo) : Prop :=
  ∃ n, ∀ fuel, n ≤ fuel → ∀ calls, ∃ s, runCalls query fuel calls (fun _ => 0) =
    some (calls.map fun c => base + c.2 + ulongOfLong (e.getNsoAddress (fnSlot c.1)), s)

/-- The four modules start executable regions, and no module in between does. -/
structure RegionsMatch (e : ExeFS) : Prop where
  between : ∀ j, subsdk0.index < j.index → j.index < sdk.index → (e.nsos j).isSome → e.Adjoins j
  main : ¬ e.Adjoins main
  subsdk0 : ¬ e.Adjoins subsdk0
  sdk : ¬ e.Adjoins sdk

section Agreement

variable {base : UInt64} {perm : ℕ → SegPerm} {query : UInt64 → MemoryInfo}

theorem ofNat_loadAddress (e : ExeFS) (base : UInt64) (j : NsoTypeEnum) :
    UInt64.ofNat (e.loadAddress base j) = base + ulongOfLong (e.getNsoAddress j) := by
  have hnonneg := e.getNsoAddress_nonneg j
  have hbase := base.toNat_lt
  rw [← UInt64.toNat_inj, UInt64.toNat_add, ulongOfLong, UInt64.toNat_ofNat', UInt64.toNat_ofNat',
    loadAddress]
  omega

/-- The walk for a module index ends at a region start. -/
theorem Loaded.exists_scan (h : e.Loadable) (hl : e.Loaded base perm) (hq : Queries query perm)
    (hne : e.regionSlots ≠ []) (k : ℕ) :
    ∃ j, e.regionSlots[k % e.regionSlots.length]? = some j ∧
      ∃ n, ∀ fuel, n ≤ fuel → scan query k fuel 0 0 =
        some (base + ulongOfLong (e.getNsoAddress j)) := by
  have hlt := Nat.mod_lt k (List.length_pos_iff.mpr hne)
  obtain ⟨n, hn⟩ := hq.exists_scan (hl.runStarts h) (by simpa using hne) (Nat.zero_le k)
  refine ⟨_, List.getElem?_eq_getElem hlt, n, fun fuel hfuel => ?_⟩
  have hscan := hn (fuel - n)
  rw [Nat.add_sub_cancel' hfuel, Nat.sub_zero, List.length_map, List.getElem?_map,
    List.getElem?_eq_getElem hlt] at hscan
  rw [hscan, Option.map_some, Option.map_some, ofNat_loadAddress]

/-- Two modules at the same address of the process are the same. -/
theorem Loaded.eq_of_address (h : e.Loadable) (hl : e.Loaded base perm) (hi : (e.nsos i).isSome)
    (hj : (e.nsos j).isSome)
    (heq : base + ulongOfLong (e.getNsoAddress i) = base + ulongOfLong (e.getNsoAddress j)) :
    i = j := by
  have hi_lt := hl.loadAddress_lt h hi
  have hj_lt := hl.loadAddress_lt h hj
  have hi_nonneg := e.getNsoAddress_nonneg i
  have hj_nonneg := e.getNsoAddress_nonneg j
  rw [← ofNat_loadAddress, ← ofNat_loadAddress, ← UInt64.toNat_inj, UInt64.toNat_ofNat_of_lt' hi_lt,
    UInt64.toNat_ofNat_of_lt' hj_lt, loadAddress, loadAddress] at heq
  exact h.getNsoAddress_injective hi hj (by omega)

/-- The two agree exactly when the region starts are those of the four modules, in order. -/
theorem Loaded.agrees_iff_regionSlots (h : e.Loadable) (hl : e.Loaded base perm)
    (hq : Queries query perm) (hslots : ∀ f, (e.nsos (fnSlot f)).isSome)
    (hne : e.regionSlots ≠ []) :
    e.Agrees base query ↔
      ∀ f : AddrFn, e.regionSlots[f.moduleIndex % e.regionSlots.length]? = some (fnSlot f) := by
  choose slot hslot n hscan using fun k => hl.exists_scan h hq hne k
  let bound := n 0 + n 1 + n 2 + n 3
  have hbound : ∀ fuel, bound ≤ fuel → ∀ f : AddrFn, scan query f.moduleIndex fuel 0 0 =
      some (base + ulongOfLong (e.getNsoAddress (slot f.moduleIndex))) := by
    intro fuel hfuel f
    refine hscan f.moduleIndex fuel (le_trans ?_ hfuel)
    cases f <;> simp only [AddrFn.moduleIndex, bound] <;> omega
  have hrun : ∀ fuel, bound ≤ fuel → ∀ calls, ∃ s, runCalls query fuel calls (fun _ => 0) =
      some (calls.map fun c =>
        base + ulongOfLong (e.getNsoAddress (slot c.1.moduleIndex)) + c.2, s) :=
    fun fuel hfuel calls => Filled.runCalls
      (v := fun k => base + ulongOfLong (e.getNsoAddress (slot k)))
      (fun _ => Or.inl rfl) (hbound fuel hfuel) calls
  constructor
  · rintro ⟨m, hm⟩ f
    obtain ⟨s, hs⟩ := hrun (bound + m) (by omega) [(f, 0)]
    obtain ⟨s', hs'⟩ := hm (bound + m) (by omega) [(f, 0)]
    rw [hs] at hs'
    have hvalue := List.head_eq_of_cons_eq (Prod.mk.inj (Option.some.inj hs')).1
    have hsome := (mem_regionSlots.mp (List.mem_of_getElem? (hslot f.moduleIndex))).1
    simp only [UInt64.add_zero] at hvalue
    rw [hslot, hl.eq_of_address h hsome (hslots f) hvalue]
  · intro hf
    refine ⟨bound, fun fuel hfuel calls => ?_⟩
    obtain ⟨s, hs⟩ := hrun fuel hfuel calls
    refine ⟨s, hs.trans ?_⟩
    congr 2
    apply List.map_congr_left
    intro c _
    have heq := Option.some.inj ((hslot c.1.moduleIndex).symm.trans (hf c.1))
    rw [heq, UInt64.add_assoc, UInt64.add_assoc, UInt64.add_comm c.2]

theorem getNsoAddress_rtld (e : ExeFS) : e.getNsoAddress rtld = 0 := rfl

theorem Loadable.not_adjoins_rtld (h : e.Loadable) : ¬ e.Adjoins rtld := by
  rintro ⟨i, -, nso, hi, hadj⟩
  have hpos := h.rodata i nso hi
  have hnonneg := e.getNsoAddress_nonneg i
  rw [getNsoAddress_rtld] at hadj
  omega

theorem regionSlots_eq_cons (h : ∀ j ∈ [rtld, main, subsdk0], j ∈ e.regionSlots) :
    e.regionSlots = rtld :: main :: subsdk0 ::
      (all.drop 3).filter fun j => (e.nsos j).isSome ∧ ¬ e.Adjoins j := by
  have hkeep : ∀ j ∈ [rtld, main, subsdk0], (e.nsos j).isSome ∧ ¬ e.Adjoins j := fun j hj =>
    mem_regionSlots.mp (h j hj)
  have hall : all = rtld :: main :: subsdk0 :: all.drop 3 := rfl
  rw [regionSlots]
  nth_rewrite 1 [hall]
  rw [List.filter_cons_of_pos (by simpa using hkeep rtld (by simp)),
    List.filter_cons_of_pos (by simpa using hkeep main (by simp)),
    List.filter_cons_of_pos (by simpa using hkeep subsdk0 (by simp))]

/-- Where the fourth region is that of the custom module, a module between the old sdk and the
custom module starts none. -/
theorem adjoins_of_regionSlots {j : NsoTypeEnum} (hmem : ∀ f, fnSlot f ∈ e.regionSlots)
    (hthis : e.regionSlots[3 % e.regionSlots.length]? = some sdk)
    (hlo : subsdk0.index < j.index) (hhi : j.index < sdk.index) (hj : (e.nsos j).isSome) :
    e.Adjoins j := by
  by_contra hj'
  have hcons := regionSlots_eq_cons (e := e) (by
    simpa using ⟨hmem .rtldAddr, hmem .mainAddr, hmem .sdkAddr⟩)
  have hjmem := mem_regionSlots.mpr ⟨hj, hj'⟩
  have hsorted : e.regionSlots.Pairwise fun i j => i.index < j.index := sorted_all.filter _
  generalize (all.drop 3).filter _ = rest at hcons
  rw [hcons] at hthis hjmem hsorted
  have hjrest : j ∈ rest := by
    simp only [List.mem_cons] at hjmem
    rcases hjmem with rfl | rfl | rfl | hjrest
    · exact absurd hlo (by decide)
    · exact absurd hlo (by decide)
    · exact absurd hlo (by decide)
    · exact hjrest
  cases rest with
  | nil => simp at hjrest
  | cons a tail =>
    -- the first module between starts the fourth region instead of the custom module
    have hindex : 3 % (rtld :: main :: subsdk0 :: a :: tail).length = 3 :=
      Nat.mod_eq_of_lt (by simp)
    rw [hindex] at hthis
    obtain rfl : a = sdk := Option.some.inj hthis
    rcases List.mem_cons.mp hjrest with rfl | htail
    · omega
    · have htop : (sdk :: tail).Pairwise fun i j => i.index < j.index := hsorted.tail.tail.tail
      have hlt := (List.pairwise_cons.mp htop).1 j htail
      omega

theorem regionSlots_of_regionsMatch (hm : e.RegionsMatch)
    (hmem : ∀ f, fnSlot f ∈ e.regionSlots) : e.regionSlots = [rtld, main, subsdk0, sdk] := by
  have hindex : ∀ j ∈ (all.drop 3).take 9, subsdk0.index < j.index ∧ j.index < sdk.index := by
    decide
  have hdrop : ∀ j ∈ (all.drop 3).take 9, ¬ ((e.nsos j).isSome ∧ ¬ e.Adjoins j) :=
    fun j hj hkeep => hkeep.2 (hm.between j (hindex j hj).1 (hindex j hj).2 hkeep.1)
  have hsplit : all.drop 3 = (all.drop 3).take 9 ++ [sdk] := rfl
  have hlast : (e.nsos sdk).isSome ∧ ¬ e.Adjoins sdk := mem_regionSlots.mp (hmem .thisAddr)
  rw [regionSlots_eq_cons (by simpa using ⟨hmem .rtldAddr, hmem .mainAddr, hmem .sdkAddr⟩),
    hsplit, List.filter_append, List.filter_eq_nil_iff.mpr (fun j hj => by simpa using hdrop j hj),
    List.nil_append, List.filter_cons_of_pos (by simpa using hlast)]
  rfl

/-- The region starts are those of the four modules exactly when no other module starts one. -/
theorem regionSlots_iff_regionsMatch (h : e.Loadable) (hslots : ∀ f, (e.nsos (fnSlot f)).isSome) :
    (∀ f : AddrFn, e.regionSlots[f.moduleIndex % e.regionSlots.length]? = some (fnSlot f)) ↔
      e.RegionsMatch := by
  constructor
  · intro hf
    have hmem : ∀ f, fnSlot f ∈ e.regionSlots := fun f => List.mem_of_getElem? (hf f)
    have hadj : ∀ f, ¬ e.Adjoins (fnSlot f) := fun f => (mem_regionSlots.mp (hmem f)).2
    exact ⟨fun j => adjoins_of_regionSlots hmem (hf .thisAddr), hadj .mainAddr, hadj .sdkAddr,
      hadj .thisAddr⟩
  · intro hm
    have hmem : ∀ f, fnSlot f ∈ e.regionSlots := by
      intro f
      refine mem_regionSlots.mpr ⟨hslots f, ?_⟩
      cases f with
      | rtldAddr => exact h.not_adjoins_rtld
      | mainAddr => exact hm.main
      | sdkAddr => exact hm.subsdk0
      | thisAddr => exact hm.sdk
    rw [regionSlots_of_regionsMatch hm hmem]
    intro f
    cases f <;> rfl

theorem Loadable.regionSlots_ne_nil (h : e.Loadable) (hrtld : (e.nsos rtld).isSome) :
    e.regionSlots ≠ [] :=
  List.ne_nil_of_mem (mem_regionSlots.mpr ⟨hrtld, h.not_adjoins_rtld⟩)

theorem isSome_addSdk (custom : NsoRef) (hrtld : (e.nsos rtld).isSome)
    (hmain : (e.nsos main).isSome) (hsdk : (e.nsos sdk).isSome) (f : AddrFn) :
    ((e.addSdk custom).nsos (fnSlot f)).isSome := by
  cases f with
  | rtldAddr => exact hrtld
  | mainAddr => exact hmain
  | sdkAddr => exact hsdk
  | thisAddr => rfl

/-- The injected module finds the modules where the patcher has them exactly when the executable
regions start with these four. -/
theorem agrees_addSdk_iff {custom : NsoRef} (hrtld : (e.nsos rtld).isSome)
    (hmain : (e.nsos main).isSome) (hsdk : (e.nsos sdk).isSome)
    (h : (e.addSdk custom).Loadable) (hl : (e.addSdk custom).Loaded base perm)
    (hq : Queries query perm) :
    (e.addSdk custom).Agrees base query ↔ (e.addSdk custom).RegionsMatch := by
  have hslots := isSome_addSdk custom hrtld hmain hsdk
  rw [hl.agrees_iff_regionSlots h hq hslots (h.regionSlots_ne_nil (hslots .rtldAddr)),
    regionSlots_iff_regionsMatch h hslots]

end Agreement

end ExeFS

/-! ### Modules with one page of code -/

/-- A page of code and a page of data. -/
def pageNso : Nso where
  flag := 0
  buildId := List.replicate 0x20 0
  segments
    | .text => .create 0 (List.replicate 0x1000 0) 0
    | .rodata => .create 0x1000 (List.replicate 0x1000 0) 0
    | .rwdata => .create 0x2000 [] 0
  dynamicStringTable := ⟨0, 0⟩
  dynamicSymbolTable := ⟨0, 0⟩
  modSection := none

/-- A game of such modules, with or without a `subsdk1`. -/
def pageExeFS (hasSubsdk1 : Bool) : ExeFS where
  objects _ := pageNso
  nsos
    | rtld => some 0
    | main => some 1
    | sdk => some 2
    | subsdk1 => if hasSubsdk1 then some 4 else none
    | _ => none
  npdm := none

/-- The memory in which `n` such modules have been loaded at `0x8000000`. -/
def pagePerm (n x : ℕ) : SegPerm :=
  if x < 0x8000000 then .none
  else if x < 0x8000000 + n * 0x2000 then if x / 0x1000 % 2 = 0 then .rx else .r
  else .none

def pageQuery (n : ℕ) (a : UInt64) : MemoryInfo :=
  if a.toNat < 0x8000000 then ⟨0, 0x8000000, .none⟩
  else if a.toNat < 0x8000000 + n * 0x2000 then
    ⟨UInt64.ofNat (a.toNat / 0x1000 * 0x1000), 0x1000, pagePerm n a.toNat⟩
  else
    ⟨UInt64.ofNat (0x8000000 + n * 0x2000), UInt64.ofNat (2 ^ 64 - (0x8000000 + n * 0x2000)),
      .none⟩

theorem pageQuery_cases {n : ℕ} (hn : n ≤ 13) (a : UInt64) :
    (a.toNat < 0x8000000 ∧ (pageQuery n a).addr.toNat = 0 ∧ (pageQuery n a).stop = 0x8000000 ∧
      (pageQuery n a).perm = .none) ∨
    (0x8000000 ≤ a.toNat ∧ a.toNat < 0x8000000 + n * 0x2000 ∧
      (pageQuery n a).addr.toNat = a.toNat / 0x1000 * 0x1000 ∧
      (pageQuery n a).stop = a.toNat / 0x1000 * 0x1000 + 0x1000 ∧
      (pageQuery n a).perm = pagePerm n a.toNat) ∨
    (0x8000000 + n * 0x2000 ≤ a.toNat ∧ (pageQuery n a).addr.toNat = 0x8000000 + n * 0x2000 ∧
      (pageQuery n a).stop = 2 ^ 64 ∧ (pageQuery n a).perm = .none) := by
  have ha := a.toNat_lt
  have hend : (UInt64.ofNat (0x8000000 + n * 0x2000)).toNat = 0x8000000 + n * 0x2000 :=
    UInt64.toNat_ofNat_of_lt' (by show _ < 2 ^ 64; omega)
  have hrest : (UInt64.ofNat (2 ^ 64 - (0x8000000 + n * 0x2000))).toNat =
      2 ^ 64 - (0x8000000 + n * 0x2000) := UInt64.toNat_ofNat_of_lt' (by show _ < 2 ^ 64; omega)
  have hpage : (UInt64.ofNat (a.toNat / 0x1000 * 0x1000)).toNat = a.toNat / 0x1000 * 0x1000 :=
    UInt64.toNat_ofNat_of_lt' (by show _ < 2 ^ 64; omega)
  unfold pageQuery
  split_ifs with hlow hmid
  · exact Or.inl ⟨hlow, rfl, rfl, rfl⟩
  · refine Or.inr (Or.inl ⟨by omega, hmid, hpage, ?_, rfl⟩)
    rw [MemoryInfo.stop, hpage]
    rfl
  · refine Or.inr (Or.inr ⟨by omega, hend, ?_, rfl⟩)
    rw [MemoryInfo.stop, hend, hrest]
    omega

theorem pagePerm_eq_rx_iff (n x : ℕ) : pagePerm n x = .rx ↔
    0x8000000 ≤ x ∧ x < 0x8000000 + n * 0x2000 ∧ x / 0x1000 % 2 = 0 := by
  unfold pagePerm
  split_ifs <;> simp only [true_iff, false_iff] <;> omega

theorem pagePerm_congr {n x y : ℕ} (hx : 0x8000000 ≤ x) (h : x / 0x1000 = y / 0x1000) :
    pagePerm n x = pagePerm n y := by
  unfold pagePerm
  rw [h]
  split_ifs <;> first | rfl | omega

theorem queries_pageQuery {n : ℕ} (hn : n ≤ 13) : Queries (pageQuery n) (pagePerm n) := by
  constructor
  · intro a
    have ha := a.toNat_lt
    rcases pageQuery_cases hn a with ⟨ha, haddr, hstop, -⟩ | ⟨hle, hlt, haddr, hstop, -⟩ |
      ⟨hle, haddr, hstop, -⟩ <;> omega
  · intro a
    rcases pageQuery_cases hn a with ⟨ha, haddr, hstop, -⟩ | ⟨hle, hlt, haddr, hstop, -⟩ |
      ⟨hle, haddr, hstop, -⟩ <;> omega
  · intro a x hx hx'
    rcases pageQuery_cases hn a with ⟨ha, haddr, hstop, hperm⟩ | ⟨hle, hlt, haddr, hstop, hperm⟩ |
      ⟨hle, haddr, hstop, hperm⟩
    · rw [hperm, pagePerm, if_pos (by omega)]
    · rw [hperm]
      exact pagePerm_congr (by omega) (by omega)
    · rw [hperm, pagePerm, if_neg (by omega), if_neg (by omega)]
  · intro a x hrx hx
    rcases pageQuery_cases hn a with ⟨-, -, -, hperm⟩ | ⟨hle, hlt, haddr, -, hperm⟩ |
      ⟨-, -, -, hperm⟩
    · rw [hperm] at hrx
      cases hrx
    · rw [hperm, pagePerm_eq_rx_iff] at hrx
      rw [Ne, pagePerm_eq_rx_iff]
      omega
    · rw [hperm] at hrx
      cases hrx
  · intro a hrx _
    rcases pageQuery_cases hn a with ⟨-, -, -, hperm⟩ | ⟨hle, hlt, haddr, hstop, hperm⟩ |
      ⟨-, -, -, hperm⟩
    · rw [hperm] at hrx
      cases hrx
    · rw [hperm, pagePerm_eq_rx_iff] at hrx
      rw [Ne, pagePerm_eq_rx_iff]
      omega
    · rw [hperm] at hrx
      cases hrx

namespace ExeFS

/-- The pages of `n` modules in a row. -/
def pageMap (n : ℕ) : List MemPage :=
  (List.range n).flatMap fun k =>
    [⟨0x2000 * k, 0x1000, .rx⟩, ⟨0x2000 * k + 0x1000, 0x1000, .r⟩, ⟨0x2000 * k + 0x2000, 0, .rw⟩]

theorem loaded_of_pageMap {e : ExeFS} {n : ℕ} (hn : n ≤ 13) (h : e.getMemoryMap = pageMap n) :
    e.Loaded 0x8000000 (pagePerm n) := by
  have hbase : (0x8000000 : UInt64).toNat = 0x8000000 := rfl
  have hpage : ∀ page, page ∈ e.getMemoryMap ↔ ∃ k < n, page = ⟨0x2000 * k, 0x1000, .rx⟩ ∨
      page = ⟨0x2000 * k + 0x1000, 0x1000, .r⟩ ∨ page = ⟨0x2000 * k + 0x2000, 0, .rw⟩ := by
    intro page
    rw [h, pageMap]
    simp
  constructor
  · intro page hmem x hx
    obtain ⟨k, hk, rfl | rfl | rfl⟩ := (hpage page).mp hmem <;>
      simp only [MemPage.contains_iff, hbase] at hx
    · exact (pagePerm_eq_rx_iff n x).mpr (by omega)
    · rw [pagePerm, if_neg (by omega), if_pos (by omega), if_neg (by omega)]
    · omega
  · intro x _ hrx
    obtain ⟨hle, hlt, hmod⟩ := (pagePerm_eq_rx_iff n x).mp hrx
    refine ⟨_, (hpage _).mpr ⟨(x - 0x8000000) / 0x2000, by omega, Or.inl rfl⟩, rfl, ?_⟩
    simp only [MemPage.contains_iff, hbase]
    omega
  · intro page hmem
    obtain ⟨k, hk, rfl | rfl | rfl⟩ := (hpage page).mp hmem <;> simp only [hbase] <;> omega

/-- Modules of the same two pages may be loaded when their addresses are two pages apart. -/
theorem loadable_of_pageNso {e : ExeFS} (ho : ∀ r, e.objects r = pageNso)
    (happ : ∀ i ∈ all, ∀ j ∈ all, (e.nsos i).isSome → (e.nsos j).isSome → i ≠ j →
      e.getNsoAddress i + 0x2000 ≤ e.getNsoAddress j ∨
        e.getNsoAddress j + 0x2000 ≤ e.getNsoAddress i) : e.Loadable := by
  have hnso : ∀ i nso, e.nsoAt i = some nso → nso = pageNso ∧ (e.nsos i).isSome := by
    intro i nso hi
    obtain ⟨r, hr, rfl⟩ := nsoAt_eq_some.mp hi
    exact ⟨ho r, by rw [hr]; rfl⟩
  have hmodule : ∀ i addr, e.InModule i addr → (e.nsos i).isSome ∧ e.getNsoAddress i ≤ addr ∧
      addr < e.getNsoAddress i + 0x2000 := by
    rintro i addr ⟨nso, hi, page, hpage, hc⟩
    obtain ⟨rfl, hsome⟩ := hnso i nso hi
    have hstart : pageNso.startAddress.toNat = 0 := rfl
    have hrodata : pageNso.rodataSegment.address.toNat = 0x1000 := rfl
    have hrwdata : pageNso.rwdataSegment.address.toNat = 0x2000 := rfl
    have hend : pageNso.endAddress.toNat = 0x2000 := rfl
    simp only [modulePages, hstart, hrodata, hrwdata, hend, List.mem_append, List.mem_cons,
      List.not_mem_nil, or_false] at hpage
    rw [MemPage.contains_iff] at hc
    refine ⟨hsome, ?_⟩
    rcases hpage with hgap | rfl | rfl | rfl
    · simp at hgap
    all_goals dsimp only at hc; omega
  refine ⟨fun i nso hi => ?_, fun i nso hi => ?_, fun i j addr hi hj => ?_⟩
  · rw [(hnso i nso hi).1]
    rfl
  · rw [(hnso i nso hi).1]
    decide
  · obtain ⟨hisome, hi⟩ := hmodule i addr hi
    obtain ⟨hjsome, hj⟩ := hmodule j addr hj
    by_contra hne
    have hsep := happ i (mem_all i) j (mem_all j) hisome hjsome hne
    omega

theorem agrees_addSdk_pageExeFS :
    ((pageExeFS false).addSdk 3).Agrees 0x8000000 (pageQuery 4) := by
  have h : ((pageExeFS false).addSdk 3).Loadable :=
    loadable_of_pageNso (fun _ => rfl) (by decide +kernel)
  have hl : ((pageExeFS false).addSdk 3).Loaded 0x8000000 (pagePerm 4) :=
    loaded_of_pageMap (by decide) (by decide +kernel)
  refine (agrees_addSdk_iff rfl rfl rfl h hl (queries_pageQuery (by decide))).mpr ?_
  refine ⟨?_, by decide +kernel, by decide +kernel, by decide +kernel⟩
  intro j hlo hhi hj
  cases j <;> first | exact absurd hlo (by decide) | exact absurd hhi (by decide) | cases hj

/-- With a `subsdk1` the fourth region is the one of `subsdk1`. -/
theorem not_agrees_pageExeFS_subsdk1 :
    (∀ j ∈ [rtld, main, sdk], ((pageExeFS true).nsos j).isSome) ∧
      ((pageExeFS true).addSdk 3).Loadable ∧
      ((pageExeFS true).addSdk 3).Loaded 0x8000000 (pagePerm 5) ∧
      Queries (pageQuery 5) (pagePerm 5) ∧
      ¬ ((pageExeFS true).addSdk 3).Agrees 0x8000000 (pageQuery 5) := by
  have h : ((pageExeFS true).addSdk 3).Loadable :=
    loadable_of_pageNso (fun _ => rfl) (by decide +kernel)
  have hl : ((pageExeFS true).addSdk 3).Loaded 0x8000000 (pagePerm 5) :=
    loaded_of_pageMap (by decide) (by decide +kernel)
  have hq := queries_pageQuery (n := 5) (by decide)
  have hslots := isSome_addSdk (e := pageExeFS true) 3 rfl rfl rfl
  refine ⟨by decide, h, hl, hq, fun hagree => ?_⟩
  have hall := (hl.agrees_iff_regionSlots h hq hslots (h.regionSlots_ne_nil rfl)).mp hagree
  have hlist : ((pageExeFS true).addSdk 3).regionSlots = [rtld, main, subsdk0, subsdk1, sdk] := by
    decide +kernel
  have hthis := hall .thisAddr
  rw [hlist] at hthis
  cases hthis

end ExeFS

end Sp2Module
