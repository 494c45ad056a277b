import Sp2Module.ExeFS
import Sp2Module.Runs

/-!
# Module addresses at run time

The injected module finds the modules by walking over the memory of the process from address 0, one
region of `svcQueryMemory` after another, and counting the executable ones. The walk wraps around at
the end of the address space, so it comes to the executable regions again and again. Each of the
four addresses is kept in a static variable.
-/

namespace Sp2Module.ProcessMemory

/-- The fields of `MemoryInfo` that are read. -/
structure MemoryInfo where
  addr : UInt64
  size : UInt64
  perm : SegPerm
deriving DecidableEq, Repr

/-- The end of the region, in 64-bit arithmetic. -/
def MemoryInfo.next (mi : MemoryInfo) : UInt64 := mi.addr + mi.size

def MemoryInfo.stop (mi : MemoryInfo) : ℕ := mi.addr.toNat + mi.size.toNat

theorem MemoryInfo.toNat_next (mi : MemoryInfo) : mi.next.toNat = mi.stop % 2 ^ 64 :=
  UInt64.toNat_add _ _

/-- What `svcQueryMemory` reports of a memory with the permissions `perm`: a region around the
address with one permission. An executable region is reported as a whole. -/
structure Queries (query : UInt64 → MemoryInfo) (perm : ℕ → SegPerm) : Prop where
  contains : ∀ a, (query a).addr.toNat ≤ a.toNat ∧ a.toNat < (query a).stop
  stop_le : ∀ a, (query a).stop ≤ 2 ^ 64
  perm_eq : ∀ a x, (query a).addr.toNat ≤ x → x < (query a).stop → perm x = (query a).perm
  maximal_left : ∀ a x, (query a).perm = .rx → x + 1 = (query a).addr.toNat → perm x ≠ .rx
  maximal_right : ∀ a, (query a).perm = .rx → (query a).stop < 2 ^ 64 →
    perm (query a).stop ≠ .rx

variable (query : UInt64 → MemoryInfo)

/-- The loop of `ModuleAddr`, for a bounded number of turns. -/
def scan (moduleIndex : ℕ) : ℕ → UInt64 → ℕ → Option UInt64
  | 0, _, _ => none
  | n + 1, curaddr, moduleCount =>
    let mi := query curaddr
    if mi.perm = .rx then
      if moduleCount = moduleIndex then some mi.addr
      else scan moduleIndex n mi.next (moduleCount + 1)
    else scan moduleIndex n mi.next moduleCount

def moduleAddr (fuel : ℕ) (addr : UInt64) (moduleIndex : ℕ) : Option UInt64 :=
  (scan query moduleIndex fuel 0 0).map fun a => a + addr

/-- The static variables, by the module index that fills them. -/
abbrev Statics := ℕ → UInt64

/-- A static variable is filled at the first call, and again as long as it is zero. -/
def staticAddr (moduleIndex : ℕ) (fuel : ℕ) (addr : UInt64) : StateT Statics Option UInt64 :=
  fun s =>
    if s moduleIndex = 0 then
      (moduleAddr query fuel 0 moduleIndex).map fun a =>
        (a + addr, Function.update s moduleIndex a)
    else some (s moduleIndex + addr, s)

def rtldAddr := staticAddr query 0
def mainAddr := staticAddr query 1
def sdkAddr := staticAddr query 2
def thisAddr := staticAddr query 3

/-! ### The walk -/

section Walk

variable {query} {perm : ℕ → SegPerm} {moduleIndex count : ℕ} {a : UInt64} {L : List ℕ}

abbrev Executable (perm : ℕ → SegPerm) (x : ℕ) : Prop := perm x = .rx

/-- An executable region that contains the address starts there. -/
def AtBoundary (perm : ℕ → SegPerm) (x : ℕ) : Prop :=
  Executable perm x → RunStart (Executable perm) x

theorem atBoundary_zero (perm : ℕ → SegPerm) : AtBoundary perm 0 :=
  fun h => ⟨h, fun _ hy => by omega⟩

/-- From a boundary an executable region is reported from the cursor on. -/
theorem Queries.addr_eq (hq : Queries query perm) (hb : AtBoundary perm a.toNat)
    (hrx : (query a).perm = .rx) : (query a).addr.toNat = a.toNat := by
  obtain ⟨hle, hlt⟩ := hq.contains a
  have hperm : perm a.toNat = .rx := (hq.perm_eq a _ hle hlt).trans hrx
  by_contra hne
  have hprev := (hb hperm).2 (a.toNat - 1) (by omega)
  exact hprev ((hq.perm_eq a _ (by omega) (by omega)).trans hrx)

/-- An executable region is the first run from the cursor on. -/
theorem Queries.step_rx (hq : Queries query perm) (hb : AtBoundary perm a.toNat)
    (hL : RunStarts (Executable perm) (2 ^ 64) a.toNat L) (hrx : (query a).perm = .rx) :
    ∃ L', L = a.toNat :: L' ∧ RunStarts (Executable perm) (2 ^ 64) (query a).stop L' ∧
      ((query a).stop < 2 ^ 64 → AtBoundary perm (query a).stop) := by
  obtain ⟨hle, hlt⟩ := hq.contains a
  have hin : ∀ x, a.toNat ≤ x → x < (query a).stop → Executable perm x := fun x hx hx' =>
    (hq.perm_eq a x (by omega) hx').trans hrx
  obtain ⟨L', hcons, hL'⟩ := hL.eq_cons (hb (hin _ le_rfl hlt)) hlt (hq.stop_le a) hin
  exact ⟨L', hcons, hL', fun hstop hperm => absurd hperm (hq.maximal_right a hrx hstop)⟩

/-- No run starts in any other region. -/
theorem Queries.step_of_ne (hq : Queries query perm)
    (hL : RunStarts (Executable perm) (2 ^ 64) a.toNat L) (hrx : (query a).perm ≠ .rx) :
    RunStarts (Executable perm) (2 ^ 64) (query a).stop L ∧ AtBoundary perm (query a).stop := by
  obtain ⟨hle, hlt⟩ := hq.contains a
  have hout : ∀ x, a.toNat ≤ x → x < (query a).stop → ¬ Executable perm x := fun x hx hx' => by
    rw [Executable, hq.perm_eq a x (by omega) hx']
    exact hrx
  exact ⟨hL.skip hlt.le hout, fun hstop => runStart_of_not hlt hout hstop⟩

/-- The walk from a boundary to the end of the address space: it stops at the module it looks for,
or comes back to address 0 having counted the modules on its way. -/
theorem Queries.scan_pass (hq : Queries query perm) (hb : AtBoundary perm a.toNat)
    (hL : RunStarts (Executable perm) (2 ^ 64) a.toNat L) (hcount : count ≤ moduleIndex) :
    ∃ k, ∀ n, scan query moduleIndex (k + n) a count =
      match L[moduleIndex - count]? with
      | some x => some (UInt64.ofNat x)
      | none => scan query moduleIndex n 0 (count + L.length) := by
  obtain ⟨d, hd⟩ : ∃ d, d = 2 ^ 64 - a.toNat := ⟨_, rfl⟩
  induction d using Nat.strong_induction_on generalizing a count L with
  | _ d ih =>
    have hlt := (hq.contains a).2
    have hstop := hq.stop_le a
    have hnext := (query a).toNat_next
    -- behind the region the walk goes on, or it starts again when nothing is left
    have hcont : ∀ count' L', count' ≤ moduleIndex →
        RunStarts (Executable perm) (2 ^ 64) (query a).stop L' →
        ((query a).stop < 2 ^ 64 → AtBoundary perm (query a).stop) →
        ∃ k, ∀ n, scan query moduleIndex (k + n) (query a).next count' =
          match L'[moduleIndex - count']? with
          | some x => some (UInt64.ofNat x)
          | none => scan query moduleIndex n 0 (count' + L'.length) := by
      intro count' L' hcount' hL' hb'
      by_cases hend : (query a).stop < 2 ^ 64
      · have hcur : (query a).next.toNat = (query a).stop := by rw [hnext, Nat.mod_eq_of_lt hend]
        rw [← hcur] at hL' hb'
        exact ih (2 ^ 64 - (query a).next.toNat) (by omega) (hb' (by omega)) hL' hcount' rfl
      · have hcur : (query a).next = 0 := by
          rw [← UInt64.toNat_inj, hnext]
          change _ = 0
          omega
        obtain rfl := hL'.eq_nil (by omega)
        exact ⟨0, fun n => by simp [hcur]⟩
    by_cases hrx : (query a).perm = .rx
    · obtain ⟨L', rfl, hL', hb'⟩ := hq.step_rx hb hL hrx
      by_cases hfound : count = moduleIndex
      · have haddr : (query a).addr = UInt64.ofNat a.toNat := by
          rw [← hq.addr_eq hb hrx, UInt64.ofNat_toNat]
        refine ⟨1, fun n => ?_⟩
        rw [Nat.add_comm 1 n, scan, if_pos hrx, if_pos hfound, haddr, hfound, Nat.sub_self]
        rfl
      · obtain ⟨k, hk⟩ := hcont (count + 1) L' (by omega) hL' hb'
        refine ⟨k + 1, fun n => ?_⟩
        have hindex : moduleIndex - count = moduleIndex - (count + 1) + 1 := by omega
        have hlength : count + 1 + L'.length = count + (a.toNat :: L').length := by
          rw [List.length_cons]
          omega
        rw [Nat.add_right_comm k 1 n, scan, if_pos hrx, if_neg hfound, hk n, hindex,
          List.getElem?_cons_succ, hlength]
    · obtain ⟨hL', hb'⟩ := hq.step_of_ne hL hrx
      obtain ⟨k, hk⟩ := hcont count L hcount hL' fun _ => hb'
      refine ⟨k + 1, fun n => ?_⟩
      rw [Nat.add_right_comm k 1 n, scan, if_neg hrx, hk n]

/-- The walk comes to the executable regions in turn, again and again. -/
theorem Queries.exists_scan (hq : Queries query perm)
    (hL : RunStarts (Executable perm) (2 ^ 64) 0 L) (hne : L ≠ []) (hcount : count ≤ moduleIndex) :
    ∃ k, ∀ n, scan query moduleIndex (k + n) 0 count =
      L[(moduleIndex - count) % L.length]?.map UInt64.ofNat := by
  have hpos := List.length_pos_iff.mpr hne
  obtain ⟨d, hd⟩ : ∃ d, d = moduleIndex - count := ⟨_, rfl⟩
  induction d using Nat.strong_induction_on generalizing count with
  | _ d ih =>
    obtain ⟨k, hk⟩ := hq.scan_pass (a := 0) (atBoundary_zero perm) hL hcount
    by_cases hlt : moduleIndex - count < L.length
    · refine ⟨k, fun n => ?_⟩
      rw [hk n, Nat.mod_eq_of_lt hlt, List.getElem?_eq_getElem hlt]
      rfl
    · obtain ⟨k', hk'⟩ := ih (moduleIndex - (count + L.length)) (by omega) (by omega) rfl
      have hmod : (moduleIndex - (count + L.length)) % L.length =
          (moduleIndex - count) % L.length := by
        rw [Nat.mod_eq_sub_mod (by omega : L.length ≤ moduleIndex - count), Nat.sub_sub]
      refine ⟨k + k', fun n => ?_⟩
      rw [Nat.add_assoc, hk, List.getElem?_eq_none (by omega), ← hmod]
      exact hk' n

end Walk

/-! ### Runs of calls -/

inductive AddrFn where
  | rtldAddr
  | mainAddr
  | sdkAddr
  | thisAddr
deriving DecidableEq, Repr

namespace AddrFn

def moduleIndex : AddrFn → ℕ
  | rtldAddr => 0
  | mainAddr => 1
  | sdkAddr => 2
  | thisAddr => 3

def call : AddrFn → ℕ → UInt64 → StateT Statics Option UInt64
  | rtldAddr => ProcessMemory.rtldAddr query
  | mainAddr => ProcessMemory.mainAddr query
  | sdkAddr => ProcessMemory.sdkAddr query
  | thisAddr => ProcessMemory.thisAddr query

theorem call_eq (f : AddrFn) : f.call query = staticAddr query f.moduleIndex := by
  cases f <;> rfl

end AddrFn

/-- The results of calls that are made one after another. -/
def runCalls (fuel : ℕ) : List (AddrFn × UInt64) → StateT Statics Option (List UInt64)
  | [] => pure []
  | (f, o) :: calls => do
    let addr ← f.call query fuel o
    let addrs ← runCalls fuel calls
    return addr :: addrs

section Calls

variable {query} {fuel : ℕ} {v : ℕ → UInt64} {s : Statics}

/-- Every static variable is still zero or has its final value. -/
def Filled (v : ℕ → UInt64) (s : Statics) : Prop := ∀ k, s k = 0 ∨ s k = v k

/-- A call returns the final value plus the offset, whether or not it has to walk. -/
theorem Filled.call (hs : Filled v s) {f : AddrFn}
    (hscan : scan query f.moduleIndex fuel 0 0 = some (v f.moduleIndex)) (o : UInt64) :
    ∃ s', f.call query fuel o s = some (v f.moduleIndex + o, s') ∧ Filled v s' := by
  rw [AddrFn.call_eq]
  by_cases hzero : s f.moduleIndex = 0
  · refine ⟨Function.update s f.moduleIndex (v f.moduleIndex), ?_, fun k => ?_⟩
    · simp [staticAddr, moduleAddr, hzero, hscan]
    · by_cases hk : k = f.moduleIndex
      · subst hk
        exact Or.inr (Function.update_self _ _ _)
      · rw [Function.update_of_ne hk]
        exact hs k
  · refine ⟨s, ?_, hs⟩
    rw [staticAddr, if_neg hzero, (hs _).resolve_left hzero]

theorem Filled.runCalls (hs : Filled v s)
    (hscan : ∀ f : AddrFn, scan query f.moduleIndex fuel 0 0 = some (v f.moduleIndex))
    (calls : List (AddrFn × UInt64)) :
    ∃ s', runCalls query fuel calls s =
      some (calls.map fun c => v c.1.moduleIndex + c.2, s') := by
  induction calls generalizing s with
  | nil => exact ⟨s, rfl⟩
  | cons c calls ih =>
    obtain ⟨f, o⟩ := c
    obtain ⟨s₁, hcall, hs₁⟩ := hs.call (hscan f) o
    obtain ⟨s₂, hrun⟩ := ih hs₁
    refine ⟨s₂, ?_⟩
    simp only [ProcessMemory.runCalls, bind, StateT.bind, hcall, Option.bind_some, hrun]
    rfl

end Calls

end Sp2Module.ProcessMemory
