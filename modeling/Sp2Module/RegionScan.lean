import Sp2Module.ProcessMemory

/-!
# Scans over the regions of a process

The memory of a process as a list of regions that cover the address space, and the two loops that
walk over it until a region suits them. Behind the last region a walk begins again at address 0. So
a walk that finds nothing never ends, and one that counts modules may find one in a later round.
-/

namespace Sp2Module.RegionScan

def permR : UInt32 := 1
def permRx : UInt32 := 5
def memTypeSharedMem : UInt32 := 0x06

/-- The fields of `MemoryInfo` that are read. -/
structure MemoryInfo where
  addr : UInt64
  size : UInt64
  type : UInt32
  perm : UInt32
deriving DecidableEq, Repr

/-- The addresses from `start` up to `stop`. -/
structure Region where
  start : ℕ
  stop : ℕ
  type : UInt32
  perm : UInt32
deriving DecidableEq, Repr

/-- The regions follow one another from `a` to the end of the address space. -/
def Covers : ℕ → List Region → Prop
  | a, [] => a = 2 ^ 64
  | a, r :: rs => r.start = a ∧ a < r.stop ∧ Covers r.stop rs

/-- A partition of the address space. -/
structure Layout where
  regions : List Region
  covers : Covers 0 regions

namespace Region

def Contains (r : Region) (a : UInt64) : Prop := r.start ≤ a.toNat ∧ a.toNat < r.stop

instance (r : Region) (a : UInt64) : Decidable (r.Contains a) :=
  inferInstanceAs (Decidable (_ ∧ _))

/-- What the kernel reports of the region; the whole address space has the size 0. -/
def info (r : Region) : MemoryInfo :=
  ⟨UInt64.ofNat r.start, UInt64.ofNat (r.stop - r.start), r.type, r.perm⟩

def base (r : Region) : UInt64 := UInt64.ofNat r.start

/-- A region of executable code. -/
def Module (r : Region) : Prop := r.perm = permRx

instance (r : Region) : Decidable r.Module := inferInstanceAs (Decidable (_ = _))

/-- A region of `0x40000` bytes of shared memory that can only be read. -/
def HidShared (r : Region) : Prop :=
  r.perm = permR ∧ r.type = memTypeSharedMem ∧ r.stop - r.start = 0x40000

instance (r : Region) : Decidable r.HidShared := inferInstanceAs (Decidable (_ ∧ _ ∧ _))

end Region

/-- The region over an address; there is one. -/
def svcQueryMemory (l : Layout) (a : UInt64) : MemoryInfo :=
  match l.regions.find? fun r => r.Contains a with
  | some r => r.info
  | none => ⟨0, 0, 0, 0⟩

variable (l : Layout)

/-- The loop of `ModuleAddr`, for a bounded number of turns. -/
def moduleScan (moduleIndex : Int32) : ℕ → UInt64 → Int32 → Option UInt64
  | 0, _, _ => none
  | n + 1, curaddr, moduleCount =>
    let mi := svcQueryMemory l curaddr
    if mi.perm = permRx then
      if moduleCount = moduleIndex then some mi.addr
      else moduleScan moduleIndex n (mi.addr + mi.size) (moduleCount + 1)
    else moduleScan moduleIndex n (mi.addr + mi.size) moduleCount

def moduleAddr (fuel : ℕ) (addr : UInt64) (moduleIndex : Int32) : Option UInt64 :=
  (moduleScan l moduleIndex fuel 0 0).map fun a => a + addr

/-- The loop of `GetHidSharedMemory`, for a bounded number of turns. -/
def hidScan : ℕ → UInt64 → Option UInt64
  | 0, _ => none
  | n + 1, curaddr =>
    let mi := svcQueryMemory l curaddr
    if mi.perm = permR ∧ mi.type = memTypeSharedMem ∧ mi.size = 0x40000 then some mi.addr
    else hidScan n (mi.addr + mi.size)

def getHidSharedMemory (fuel : ℕ) : Option UInt64 := hidScan l fuel 0

/-! ### What the scans are to do -/

/-- The modules in address order. -/
def modules : List Region := l.regions.filter Region.Module

/-- The scan ends at the module of the index, and at none where there is no such module. -/
structure ModuleAddrRight (addr : UInt64) (moduleIndex : Int32) : Prop where
  terminates : ∃ fuel a, moduleAddr l fuel addr moduleIndex = some a
  found : moduleIndex.toInt < (modules l).length → ∀ fuel a,
    moduleAddr l fuel addr moduleIndex = some a →
      ∃ (k : ℕ) (r : Region), (k : ℤ) = moduleIndex.toInt ∧ (modules l)[k]? = some r ∧
        a = r.base + addr
  missing : (modules l).length ≤ moduleIndex.toInt → ∀ fuel a,
    moduleAddr l fuel addr moduleIndex = some a → ∀ r ∈ modules l, a ≠ r.base + addr

/-- The scan ends, and at a region of the kind it looks for. -/
structure HidRight : Prop where
  terminates : ∃ fuel a, getHidSharedMemory l fuel = some a
  found : ∀ fuel a, getHidSharedMemory l fuel = some a →
    ∃ r ∈ l.regions, r.HidShared ∧ a = r.base

/-! ### The regions of a layout -/

section Layout

variable {l} {a : ℕ} {r : Region} {front back rs : List Region}

theorem Covers.le (h : Covers a rs) : a ≤ 2 ^ 64 := by
  induction rs generalizing a with
  | nil => exact h.le
  | cons r rs ih =>
    have hle := ih h.2.2
    have hlt := h.2.1
    omega

/-- What comes behind a part of the regions begins where that part ends. -/
theorem Covers.append (h : Covers a (front ++ back)) :
    ∃ b, a ≤ b ∧ Covers b back ∧ ∀ r ∈ front, r.stop ≤ b := by
  induction front generalizing a with
  | nil => exact ⟨a, le_rfl, h, by simp⟩
  | cons r front ih =>
    obtain ⟨b, hle, hback, hfront⟩ := ih h.2.2
    exact ⟨b, h.2.1.le.trans hle, hback, List.forall_mem_cons.mpr ⟨hle, hfront⟩⟩

theorem next_info (hlt : r.start < r.stop) : r.info.addr + r.info.size = UInt64.ofNat r.stop := by
  rw [Region.info, ← UInt64.ofNat_add, Nat.add_sub_cancel' hlt.le]

/-- A query at the start of a region reports that region. -/
theorem svcQueryMemory_start (h : l.regions = front ++ r :: back) :
    svcQueryMemory l r.base = r.info := by
  have hcovers := l.covers
  rw [h] at hcovers
  obtain ⟨b, -, hback, hfront⟩ := hcovers.append
  have hlt := hback.2.1
  have hle := hback.2.2.le
  have hstart := hback.1
  have hbase : r.base.toNat = r.start := UInt64.toNat_ofNat_of_lt' (by change _ < 2 ^ 64; omega)
  have hfind : l.regions.find? (fun r' => r'.Contains r.base) = some r := by
    rw [h, List.find?_append, List.find?_eq_none.mpr, Option.none_or, List.find?_cons_of_pos]
    · rw [decide_eq_true_eq, Region.Contains, hbase]
      omega
    · intro r' hr'
      have hstop := hfront r' hr'
      rw [decide_eq_true_eq, Region.Contains, hbase]
      omega
  rw [svcQueryMemory, hfind]

/-- A report with a permission is one of a region. -/
theorem exists_of_svcQueryMemory {c : UInt64} (h : (svcQueryMemory l c).perm ≠ 0) :
    ∃ r ∈ l.regions, svcQueryMemory l c = r.info := by
  unfold svcQueryMemory at h ⊢
  cases hfind : l.regions.find? fun r => r.Contains c with
  | none =>
    rw [hfind] at h
    exact absurd rfl h
  | some r => exact ⟨r, List.mem_of_find?_eq_some hfind, rfl⟩

/-- The region behind a report, or address 0 behind the last. -/
def cursor : List Region → UInt64
  | [] => 0
  | r :: _ => r.base

theorem next_eq_cursor (h : Covers a (r :: rs)) : r.info.addr + r.info.size = cursor rs := by
  rw [next_info (h.1 ▸ h.2.1)]
  cases rs with
  | nil =>
    have hstop : r.stop = 2 ^ 64 := h.2.2
    rw [hstop]
    rfl
  | cons r' rs =>
    rw [cursor, Region.base, h.2.2.1]

/-- The report at the first of the regions that are left, and the cursor behind it. -/
theorem svcQueryMemory_cursor (h : l.regions = front ++ r :: rs) :
    svcQueryMemory l (cursor (r :: rs)) = r.info ∧ r.info.addr + r.info.size = cursor rs := by
  refine ⟨svcQueryMemory_start h, ?_⟩
  have hcovers := l.covers
  rw [h] at hcovers
  obtain ⟨b, -, hback, -⟩ := hcovers.append
  exact next_eq_cursor hback

theorem cursor_regions (l : Layout) : cursor l.regions = 0 := by
  have hcovers := l.covers
  cases hrs : l.regions with
  | nil => rfl
  | cons r rs =>
    rw [hrs] at hcovers
    rw [cursor, Region.base, hcovers.1]
    rfl

end Layout

/-! ### The scan for a module -/

section ModuleScan

variable {l} {moduleIndex count : Int32} {n : ℕ} {a c : UInt64} {front rs : List Region}

/-- A scan ends at the base of a module. -/
theorem moduleScan_eq_some (h : moduleScan l moduleIndex n c count = some a) :
    ∃ r ∈ modules l, a = r.base := by
  induction n generalizing c count with
  | zero => cases h
  | succ n ih =>
    rw [moduleScan] at h
    split_ifs at h with hperm hcount
    · obtain ⟨r, hr, hquery⟩ := exists_of_svcQueryMemory (l := l) (c := c) (by rw [hperm]; decide)
      rw [hquery] at hperm h
      cases h
      exact ⟨r, List.mem_filter.mpr ⟨hr, decide_eq_true hperm⟩, rfl⟩
    · exact ih h
    · exact ih h

/-- More turns do not change where a scan ends. -/
theorem moduleScan_mono {m : ℕ} (h : moduleScan l moduleIndex n c count = some a) (hm : n ≤ m) :
    moduleScan l moduleIndex m c count = some a := by
  induction n generalizing c count m with
  | zero => cases h
  | succ n ih =>
    obtain ⟨m, rfl⟩ := Nat.exists_eq_add_one_of_ne_zero (Nat.ne_of_gt (Nat.zero_lt_of_lt hm))
    rw [moduleScan] at h ⊢
    split_ifs at h ⊢ with hperm hcount
    · exact h
    · exact ih h (Nat.le_of_succ_le_succ hm)
    · exact ih h (Nat.le_of_succ_le_succ hm)

/-- A round over the regions that are left ends at the module of the index, if it is among them. -/
theorem moduleScan_round {k : ℕ} (h : l.regions = front ++ rs) (hk : (k : ℤ) ≤ moduleIndex.toInt)
    (hlt : moduleIndex.toInt < k + (rs.filter Region.Module).length) :
    ∃ r, (rs.filter Region.Module)[(moduleIndex.toInt - k).toNat]? = some r ∧
      moduleScan l moduleIndex rs.length (cursor rs) (Int32.ofNat k) = some r.base := by
  induction rs generalizing front k with
  | nil =>
    rw [List.filter_nil, List.length_nil] at hlt
    omega
  | cons r rs ih =>
    obtain ⟨hquery, hnext⟩ := svcQueryMemory_cursor h
    have hmax := moduleIndex.toInt_lt
    have hcount : (Int32.ofNat k).toInt = k := Int32.toInt_ofNat_of_lt (by omega)
    rw [List.append_cons] at h
    rw [List.length_cons, moduleScan, hquery, hnext]
    by_cases hperm : r.Module
    · rw [List.filter_cons_of_pos (by simpa using hperm)] at hlt ⊢
      rw [if_pos (show r.info.perm = permRx from hperm)]
      by_cases heq : (k : ℤ) = moduleIndex.toInt
      · rw [if_pos (Int32.toInt_inj.mp (hcount.trans heq)), ← heq, sub_self]
        exact ⟨r, rfl, rfl⟩
      · rw [if_neg fun hsame => heq (hcount.symm.trans (congrArg Int32.toInt hsame))]
        rw [List.length_cons] at hlt
        obtain ⟨r', hr', hscan⟩ := ih h (k := k + 1) (by omega) (by omega)
        refine ⟨r', ?_, ?_⟩
        · rw [show (moduleIndex.toInt - k).toNat = (moduleIndex.toInt - (k + 1 : ℕ)).toNat + 1 by
            omega, List.getElem?_cons_succ, hr']
        · rw [← hscan, Int32.ofNat_add]
          rfl
    · rw [List.filter_cons_of_neg (by simpa using hperm)] at hlt ⊢
      rw [if_neg (show ¬ r.info.perm = permRx from hperm)]
      exact ih h hk hlt

/-- The reports, with no more of the permission than whether the region is a module. -/
def moduleQuery (l : Layout) (c : UInt64) : ProcessMemory.MemoryInfo :=
  let mi := svcQueryMemory l c
  ⟨mi.addr, mi.size, if mi.perm = permRx then .rx else .none⟩

/-- For an index that is not negative the scan is the one over these reports. -/
theorem moduleScan_eq_scan {i k : ℕ} (hi : i < 2 ^ 31) (hk : k ≤ i) :
    moduleScan l (Int32.ofNat i) n c (Int32.ofNat k) =
      ProcessMemory.scan (moduleQuery l) i n c k := by
  induction n generalizing c k with
  | zero => rfl
  | succ n ih =>
    have hcount : (Int32.ofNat k = Int32.ofNat i) ↔ k = i := by
      rw [← Int32.toInt_inj, Int32.toInt_ofNat_of_lt hi, Int32.toInt_ofNat_of_lt (by omega),
        Nat.cast_inj]
    rw [moduleScan, ProcessMemory.scan]
    by_cases hperm : (svcQueryMemory l c).perm = permRx
    · have hrx : (moduleQuery l c).perm = .rx := if_pos hperm
      rw [if_pos hperm, if_pos hrx]
      by_cases heq : k = i
      · rw [if_pos (hcount.mpr heq), if_pos heq]
        rfl
      · rw [if_neg (mt hcount.mp heq), if_neg heq, ← ih (by omega), Int32.ofNat_add]
        rfl
    · have hrx : (moduleQuery l c).perm ≠ .rx := by
        rw [moduleQuery, if_neg hperm]
        exact SegPerm.noConfusion
      rw [if_neg hperm, if_neg hrx, ← ih hk]
      rfl

theorem moduleAddr_eq (l : Layout) (fuel : ℕ) (addr : UInt64) {i : ℕ} (hi : i < 2 ^ 31) :
    moduleAddr l fuel addr (Int32.ofNat i) =
      ProcessMemory.moduleAddr (moduleQuery l) fuel addr i := by
  rw [moduleAddr, ProcessMemory.moduleAddr, ← moduleScan_eq_scan hi (Nat.zero_le i)]
  rfl

/-- The scan is right exactly when there is a module of the index. -/
theorem moduleAddrRight_iff (l : Layout) (addr : UInt64) (moduleIndex : Int32) :
    ModuleAddrRight l addr moduleIndex ↔
      0 ≤ moduleIndex.toInt ∧ moduleIndex.toInt < (modules l).length := by
  constructor
  · intro h
    obtain ⟨fuel, a, ha⟩ := h.terminates
    by_cases hlt : moduleIndex.toInt < (modules l).length
    · obtain ⟨k, r, hk, -⟩ := h.found hlt fuel a ha
      exact ⟨by omega, hlt⟩
    · obtain ⟨b, hb, rfl⟩ := Option.map_eq_some_iff.mp ha
      obtain ⟨r, hr, rfl⟩ := moduleScan_eq_some hb
      exact absurd rfl (h.missing (not_lt.mp hlt) fuel _ ha r hr)
  · rintro ⟨hnonneg, hlt⟩
    have hregions : l.regions = [] ++ l.regions := rfl
    obtain ⟨r, hr, hscan⟩ := moduleScan_round (k := 0) hregions hnonneg
      (by rw [Nat.cast_zero, zero_add]; exact hlt)
    rw [cursor_regions] at hscan
    refine ⟨⟨_, _, congrArg (Option.map fun a => a + addr) hscan⟩, fun _ fuel a ha => ?_,
      fun hle => absurd hlt (not_lt.mpr hle)⟩
    obtain ⟨b, hb, rfl⟩ := Option.map_eq_some_iff.mp ha
    have hsame := (moduleScan_mono hb (Nat.le_max_left fuel l.regions.length)).symm.trans
      (moduleScan_mono hscan (Nat.le_max_right _ _))
    rw [Option.some.injEq] at hsame
    refine ⟨moduleIndex.toInt.toNat, r, Int.toNat_of_nonneg hnonneg, ?_, by rw [hsame]⟩
    rwa [Nat.cast_zero, sub_zero] at hr

end ModuleScan

/-! ### The scan for the shared memory -/

section HidScan

variable {l} {n : ℕ} {a c : UInt64} {r : Region} {front rs : List Region}

theorem Region.info_hidShared_iff (hlt : r.start < r.stop) (hle : r.stop ≤ 2 ^ 64) :
    (r.info.perm = permR ∧ r.info.type = memTypeSharedMem ∧ r.info.size = 0x40000) ↔
      r.HidShared := by
  have hsize : r.info.size = 0x40000 ↔ r.stop - r.start = 0x40000 := by
    rw [← UInt64.toNat_inj]
    change (UInt64.ofNat (r.stop - r.start)).toNat = 0x40000 ↔ _
    rw [UInt64.toNat_ofNat']
    omega
  rw [hsize]
  rfl

theorem bounds_of_mem (hr : r ∈ l.regions) : r.start < r.stop ∧ r.stop ≤ 2 ^ 64 := by
  obtain ⟨front, back, hsplit⟩ := List.append_of_mem hr
  have hcovers := l.covers
  rw [hsplit] at hcovers
  obtain ⟨b, -, hback, -⟩ := hcovers.append
  exact ⟨hback.1 ▸ hback.2.1, hback.2.2.le⟩

theorem hidScan_eq_some (h : hidScan l n c = some a) :
    ∃ r ∈ l.regions, r.HidShared ∧ a = r.base := by
  induction n generalizing c with
  | zero => cases h
  | succ n ih =>
    rw [hidScan] at h
    split_ifs at h with hhid
    · obtain ⟨r, hr, hquery⟩ := exists_of_svcQueryMemory (l := l) (c := c) (by rw [hhid.1]; decide)
      obtain ⟨hlt, hle⟩ := bounds_of_mem hr
      rw [hquery] at hhid h
      cases h
      exact ⟨r, hr, (Region.info_hidShared_iff hlt hle).mp hhid, rfl⟩
    · exact ih h

/-- A round over the regions that are left ends at a region of the kind, if one is among them. -/
theorem hidScan_round (h : l.regions = front ++ rs) (hrs : ∃ r ∈ rs, r.HidShared) :
    ∃ a, hidScan l rs.length (cursor rs) = some a := by
  induction rs generalizing front with
  | nil => simp at hrs
  | cons r rs ih =>
    obtain ⟨hquery, hnext⟩ := svcQueryMemory_cursor h
    obtain ⟨hlt, hle⟩ := bounds_of_mem (l := l) (r := r) (by rw [h]; simp)
    rw [List.append_cons] at h
    rw [List.length_cons, hidScan, hquery, hnext]
    split_ifs with hhid
    · exact ⟨_, rfl⟩
    · obtain ⟨r', hr', hhid'⟩ := hrs
      rcases List.mem_cons.mp hr' with rfl | hmem
      · exact absurd ((Region.info_hidShared_iff hlt hle).mpr hhid') hhid
      · exact ih h ⟨r', hmem, hhid'⟩

/-- The scan for the shared memory is right exactly when there is such a region. -/
theorem hidRight_iff (l : Layout) : HidRight l ↔ ∃ r ∈ l.regions, r.HidShared := by
  constructor
  · intro h
    obtain ⟨fuel, a, ha⟩ := h.terminates
    obtain ⟨r, hr, hhid, -⟩ := h.found fuel a ha
    exact ⟨r, hr, hhid⟩
  · intro h
    have hregions : l.regions = [] ++ l.regions := rfl
    obtain ⟨a, ha⟩ := hidScan_round hregions h
    rw [cursor_regions] at ha
    exact ⟨⟨_, a, ha⟩, fun fuel a h => hidScan_eq_some h⟩

end HidScan

/-- Both scans end as they are to, exactly when what they look for is there. -/
theorem scans_right_iff (l : Layout) (addr : UInt64) (moduleIndex : Int32) :
    (ModuleAddrRight l addr moduleIndex ↔
      0 ≤ moduleIndex.toInt ∧ moduleIndex.toInt < (modules l).length) ∧
    (HidRight l ↔ ∃ r ∈ l.regions, r.HidShared) :=
  ⟨moduleAddrRight_iff l addr moduleIndex, hidRight_iff l⟩

/-- One module and nothing else. -/
def oneModule : Layout := ⟨[⟨0, 2 ^ 64, 3, permRx⟩], rfl, by decide, rfl⟩

/-- With one module the second one is found to be the first, and a scan for shared memory has no
end. -/
theorem scans_not_right :
    moduleAddr oneModule 2 0x10 1 = some 0x10 ∧ ¬ ModuleAddrRight oneModule 0x10 1 ∧
      (∀ fuel, getHidSharedMemory oneModule fuel = none) ∧ ¬ HidRight oneModule := by
  have haddr : moduleAddr oneModule 2 0x10 1 = some 0x10 := by decide
  have hnone : ∀ fuel, getHidSharedMemory oneModule fuel = none := by
    intro fuel
    cases hscan : getHidSharedMemory oneModule fuel with
    | none => rfl
    | some a =>
      obtain ⟨r, hr, hhid, -⟩ := hidScan_eq_some hscan
      rw [List.mem_singleton.mp hr] at hhid
      exact absurd hhid (by decide)
  refine ⟨haddr, fun h => ?_, hnone, fun h => ?_⟩
  · exact h.missing (by decide) 2 _ haddr ⟨0, 2 ^ 64, 3, permRx⟩ (by decide) (by decide)
  · obtain ⟨fuel, a, ha⟩ := h.terminates
    rw [hnone fuel] at ha
    cases ha

end Sp2Module.RegionScan
