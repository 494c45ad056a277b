import Sp2Module.LoadedMemory
import Sp2Module.PatcherReload

/-!
# The functions of the game

The injected module calls the game through pointers. It sets them from offsets in the main module
and in the old `sdk` that are written into it, and it sets them again whenever the game connects to
a port. In a process that has been loaded from the output of the patcher each pointer is at the
offset where the game had that function before it was patched.
-/

namespace Sp2Module

open NsoTypeEnum ProcessMemory

/-! ### The pointers -/

/-- The pointers of `initSp2Funcs`. -/
inductive Sp2Func where
  | socketInitialize | socketFinalize | socketSocket | socketInetHtons
  | socketConnect | socketSend | socketRecv | socketClose
  | getRomType | sp2Malloc
  | showError | showApplicationError
  | applicationErrorArgConstructor | applicationErrorArgConstructor2
  | getProjectionMatrix
  | textWriterConstructor | setupGraphics | printImpl | beginDraw | endDraw
  | setCursorFromTopLeft | printf | calcFormatStringRect
  | etcDispDraw | drawLine | setTextDirect
  | changeShaderMode | drawColorQuad | drawTriangleImm | rendererDraw
deriving DecidableEq, Repr

namespace Sp2Func

/-- The pointers in the order in which they are set. -/
def all : List Sp2Func :=
  [socketInitialize, socketFinalize, socketSocket, socketInetHtons, socketConnect, socketSend,
    socketRecv, socketClose, getRomType, sp2Malloc, showError, showApplicationError,
    applicationErrorArgConstructor, applicationErrorArgConstructor2, getProjectionMatrix,
    textWriterConstructor, setupGraphics, printImpl, beginDraw, endDraw, setCursorFromTopLeft,
    printf, calcFormatStringRect, etcDispDraw, drawLine, setTextDirect, changeShaderMode,
    drawColorQuad, drawTriangleImm, rendererDraw]

theorem mem_all (f : Sp2Func) : f ∈ all := by
  cases f <;> decide

/-- The function that a pointer is computed with, and its argument. -/
def source : Sp2Func → AddrFn × UInt64
  | socketInitialize => (.mainAddr, 0x1551F28)
  | socketFinalize => (.mainAddr, 0x1551F88)
  | socketSocket => (.mainAddr, 0x1551D98)
  | socketInetHtons => (.mainAddr, 0x1551D88)
  | socketConnect => (.mainAddr, 0x1551E18)
  | socketSend => (.mainAddr, 0x1551E58)
  | socketRecv => (.mainAddr, 0x1551E48)
  | socketClose => (.mainAddr, 0x1551E68)
  | getRomType => (.mainAddr, 0x88404)
  | sp2Malloc => (.mainAddr, 0xF003CC)
  | showError => (.sdkAddr, 0x10EF1C)
  | showApplicationError => (.sdkAddr, 0x10F394)
  | applicationErrorArgConstructor => (.sdkAddr, 0x10F8FC)
  | applicationErrorArgConstructor2 => (.sdkAddr, 0x10F91C)
  | getProjectionMatrix => (.mainAddr, 0xFCE018)
  | textWriterConstructor => (.mainAddr, 0xFD0380)
  | setupGraphics => (.mainAddr, 0xFD04A8)
  | printImpl => (.mainAddr, 0xFD1344)
  | beginDraw => (.mainAddr, 0xFD0668)
  | endDraw => (.mainAddr, 0xFD069C)
  | setCursorFromTopLeft => (.mainAddr, 0xFD0508)
  | printf => (.mainAddr, 0xFD09E8)
  | calcFormatStringRect => (.mainAddr, 0xFD0D5C)
  | etcDispDraw => (.mainAddr, 0xC526B8)
  | drawLine => (.mainAddr, 0xC511D0)
  | setTextDirect => (.mainAddr, 0xC5D220)
  | changeShaderMode => (.mainAddr, 0xFED6B8)
  | drawColorQuad => (.mainAddr, 0x1033320)
  | drawTriangleImm => (.mainAddr, 0x10347CC)
  | rendererDraw => (.mainAddr, 0x1062768)

theorem source_cases (f : Sp2Func) : f.source.1 = .mainAddr ∨ f.source.1 = .sdkAddr := by
  cases f <;> decide

end Sp2Func

abbrev Sp2Funcs := Sp2Func → UInt64

variable (query : UInt64 → MemoryInfo)

/-- The assignments to the pointers of a list. -/
def setFuncs (fuel : ℕ) : List Sp2Func → Sp2Funcs → StateT Statics Option Sp2Funcs
  | [], funcs => pure funcs
  | f :: fs, funcs => do
    let addr ← f.source.1.call query fuel f.source.2
    setFuncs fuel fs (Function.update funcs f addr)

def initSp2Funcs (fuel : ℕ) (funcs : Sp2Funcs) : StateT Statics Option Sp2Funcs :=
  setFuncs query fuel Sp2Func.all funcs

/-- What the module does that reads or fills the static variables. -/
inductive ModuleCall where
  | initSp2Funcs
  | addr (f : AddrFn) (o : UInt64)
deriving DecidableEq, Repr

/-- The pointers behind a run of the module. -/
def runModule (fuel : ℕ) : List ModuleCall → Sp2Funcs → StateT Statics Option Sp2Funcs
  | [], funcs => pure funcs
  | .initSp2Funcs :: calls, funcs => do
    let funcs ← initSp2Funcs query fuel funcs
    runModule fuel calls funcs
  | .addr f o :: calls, funcs => do
    let _ ← f.call query fuel o
    runModule fuel calls funcs

section Run

variable {query} {fuel : ℕ} {v : ℕ → UInt64} {s : Statics}

/-- The pointers when the modules are at `v`. -/
def funcsAt (v : ℕ → UInt64) : Sp2Funcs := fun f => v f.source.1.moduleIndex + f.source.2

variable (hscan : ∀ f : AddrFn, scan query f.moduleIndex fuel 0 0 = some (v f.moduleIndex))
include hscan

theorem ProcessMemory.Filled.setFuncs (hs : Filled v s) (fs : List Sp2Func) (funcs : Sp2Funcs) :
    ∃ s', setFuncs query fuel fs funcs s =
      some (fun f => if f ∈ fs then funcsAt v f else funcs f, s') ∧ Filled v s' := by
  induction fs generalizing s funcs with
  | nil =>
    refine ⟨s, ?_, hs⟩
    simp only [List.not_mem_nil, if_false]
    rfl
  | cons f fs ih =>
    obtain ⟨s₁, hcall, hs₁⟩ := hs.call (hscan f.source.1) f.source.2
    obtain ⟨s₂, hrest, hs₂⟩ := ih hs₁ (Function.update funcs f (funcsAt v f))
    refine ⟨s₂, ?_, hs₂⟩
    have hstep : Sp2Module.setFuncs query fuel (f :: fs) funcs s =
        Sp2Module.setFuncs query fuel fs (Function.update funcs f (funcsAt v f)) s₁ := by
      simp only [Sp2Module.setFuncs, bind, StateT.bind, hcall, Option.bind_some, funcsAt]
    rw [hstep, hrest]
    congr 2
    funext g
    by_cases hg : g ∈ fs
    · rw [if_pos hg, if_pos (List.mem_cons_of_mem f hg)]
    · rw [if_neg hg]
      by_cases hgf : g = f
      · subst hgf
        rw [Function.update_self, if_pos List.mem_cons_self]
      · rw [Function.update_of_ne hgf, if_neg (by simp [hg, hgf])]

theorem ProcessMemory.Filled.initSp2Funcs (hs : Filled v s) (funcs : Sp2Funcs) :
    ∃ s', initSp2Funcs query fuel funcs s = some (funcsAt v, s') ∧ Filled v s' := by
  obtain ⟨s', hrun, hs'⟩ := hs.setFuncs hscan Sp2Func.all funcs
  have hall : (fun f => if f ∈ Sp2Func.all then funcsAt v f else funcs f) = funcsAt v :=
    funext fun f => if_pos f.mem_all
  exact ⟨s', by rw [Sp2Module.initSp2Funcs, hrun, hall], hs'⟩

/-- From the first time they are set on the pointers stay as they are. -/
theorem ProcessMemory.Filled.runModule (hs : Filled v s) (calls : List ModuleCall)
    (funcs : Sp2Funcs) :
    ∃ s', runModule query fuel calls funcs s =
      some (if .initSp2Funcs ∈ calls then funcsAt v else funcs, s') := by
  induction calls generalizing s funcs with
  | nil => exact ⟨s, rfl⟩
  | cons call calls ih =>
    cases call with
    | initSp2Funcs =>
      obtain ⟨s₁, hinit, hs₁⟩ := hs.initSp2Funcs hscan funcs
      obtain ⟨s₂, hrest⟩ := ih hs₁ (funcsAt v)
      refine ⟨s₂, ?_⟩
      rw [ite_self] at hrest
      rw [if_pos List.mem_cons_self, ← hrest]
      simp only [Sp2Module.runModule, bind, StateT.bind, hinit, Option.bind_some]
    | addr f o =>
      obtain ⟨s₁, hcall, hs₁⟩ := hs.call (hscan f) o
      obtain ⟨s₂, hrest⟩ := ih hs₁ funcs
      refine ⟨s₂, ?_⟩
      have hmem : ModuleCall.initSp2Funcs ∈ .addr f o :: calls ↔ .initSp2Funcs ∈ calls := by simp
      simp only [Sp2Module.runModule, bind, StateT.bind, hcall, Option.bind_some, hrest, hmem]

end Run

/-! ### In a process with the patched game -/

namespace Sp2Func

/-- The slot in the game of the module that a pointer is for. -/
def gameSlot (f : Sp2Func) : NsoTypeEnum := if f.source.1 = .sdkAddr then sdk else main

/-- Its slot in the patched game. -/
def slot (f : Sp2Func) : NsoTypeEnum := ExeFS.fnSlot f.source.1

theorem slot_cases (f : Sp2Func) :
    (f.gameSlot = main ∧ f.slot = main ∧ f.source.1.moduleIndex = 1) ∨
      (f.gameSlot = sdk ∧ f.slot = subsdk0 ∧ f.source.1.moduleIndex = 2) := by
  rcases f.source_cases with h | h
  · left
    simp [gameSlot, slot, h, ExeFS.fnSlot, AddrFn.moduleIndex]
  · right
    simp [gameSlot, slot, h, ExeFS.fnSlot, AddrFn.moduleIndex]

end Sp2Func

namespace ExeFS

variable {query} {e : ExeFS} {base : UInt64} {perm : ℕ → SegPerm}

/-- The second and the third executable region are those of the main module and of the old sdk. -/
structure GameRegions (e : ExeFS) : Prop where
  rtld : (e.nsos rtld).isSome
  main : (e.nsos main).isSome ∧ ¬ e.Adjoins main
  subsdk0 : (e.nsos subsdk0).isSome ∧ ¬ e.Adjoins subsdk0

theorem GameRegions.regionSlots (hg : e.GameRegions) (h : e.Loadable) :
    e.regionSlots[1 % e.regionSlots.length]? = some .main ∧
      e.regionSlots[2 % e.regionSlots.length]? = some .subsdk0 := by
  have hcons := regionSlots_eq_cons (e := e) (by
    intro j hj
    rw [mem_regionSlots]
    simp only [List.mem_cons, List.not_mem_nil, or_false] at hj
    rcases hj with rfl | rfl | rfl
    · exact ⟨hg.rtld, h.not_adjoins_rtld⟩
    · exact hg.main
    · exact hg.subsdk0)
  rw [hcons]
  have hlen : 3 ≤ (NsoTypeEnum.rtld :: .main :: .subsdk0 ::
      (NsoTypeEnum.all.drop 3).filter fun j => (e.nsos j).isSome ∧ ¬ e.Adjoins j).length := by simp
  rw [Nat.mod_eq_of_lt (by omega), Nat.mod_eq_of_lt (by omega)]
  exact ⟨rfl, rfl⟩

/-- The address of a function in a process. -/
def funcAddress (e : ExeFS) (base : UInt64) (f : Sp2Func) : UInt64 :=
  base + ulongOfLong (e.getNsoAddress f.slot) + f.source.2

/-- Whatever else the module does, once the pointers have been set they are right. -/
theorem GameRegions.exists_runModule (hg : e.GameRegions) (h : e.Loadable) (hl : e.Loaded base perm)
    (hq : Queries query perm) : ∃ n, ∀ fuel, n ≤ fuel → ∀ calls, .initSp2Funcs ∈ calls →
      ∀ funcs, ∃ s, runModule query fuel calls funcs (fun _ => 0) =
        some (e.funcAddress base, s) := by
  have hne : e.regionSlots ≠ [] := h.regionSlots_ne_nil hg.rtld
  choose slot hslot n hscan using fun k => hl.exists_scan h hq hne k
  obtain ⟨hmain, hsub⟩ := hg.regionSlots h
  have hmain : slot 1 = .main := Option.some.inj ((hslot 1).symm.trans hmain)
  have hsub : slot 2 = .subsdk0 := Option.some.inj ((hslot 2).symm.trans hsub)
  refine ⟨n 0 + n 1 + n 2 + n 3, fun fuel hfuel calls hcalls funcs => ?_⟩
  have hvalue : ∀ f : AddrFn, scan query f.moduleIndex fuel 0 0 =
      some (base + ulongOfLong (e.getNsoAddress (slot f.moduleIndex))) := by
    intro f
    refine hscan f.moduleIndex fuel (le_trans ?_ hfuel)
    cases f <;> simp only [AddrFn.moduleIndex] <;> omega
  obtain ⟨s, hrun⟩ := Filled.runModule
    (v := fun k => base + ulongOfLong (e.getNsoAddress (slot k))) hvalue (fun _ => Or.inl rfl)
    calls funcs
  refine ⟨s, ?_⟩
  rw [hrun, if_pos hcalls]
  congr 2
  funext f
  rcases f.slot_cases with ⟨-, hf, hindex⟩ | ⟨-, hf, hindex⟩
  · rw [funcsAt, funcAddress, hindex, hmain, hf]
  · rw [funcsAt, funcAddress, hindex, hsub, hf]

end ExeFS

namespace Program

variable {rt : Runtime} {input : Input} {p : Prepared} {e e₂ : ExeFS} {custom : Nso}
  {outdir out : Directory}

/-- The module that a pointer is for is in the loaded game as it was in the game `e` before it was
patched, but for the bytes that a patch has set. -/
structure Carried (p : Prepared) (e e₂ : ExeFS) (f : Sp2Func) : Prop where
  loadedAt : ∀ t k o, e₂.LoadedAt ⟨f.slot, t, k⟩ (e₂.getNsoAddress f.slot + o) ↔
    e.LoadedAt ⟨f.gameSlot, t, k⟩ (e.getNsoAddress f.gameSlot + o)
  cells : ∀ t k, (∀ w ∈ p.writes, w ⟨f.slot, t, k⟩ = none) →
    e₂.cells ⟨f.slot, t, k⟩ = e.cells ⟨f.gameSlot, t, k⟩

theorem Origin.nsos_slot (h : Origin rt input p e custom) (f : Sp2Func) :
    p.exefs.nsos f.slot = e.nsos f.gameSlot := by
  rcases f.slot_cases with ⟨hgame, hslot, -⟩ | ⟨hgame, hslot, -⟩
  · rw [hgame, hslot, h.nsos_of_ne (by decide) (by decide)]
  · rw [hgame, hslot, h.nsos_subsdk0]

theorem Origin.cells_slot (h : Origin rt input p e custom) (f : Sp2Func) (t : NsoSegmentType)
    (k : ℕ) : p.exefs.cells ⟨f.slot, t, k⟩ = e.cells ⟨f.gameSlot, t, k⟩ := by
  rcases f.slot_cases with ⟨hgame, hslot, -⟩ | ⟨hgame, hslot, -⟩
  · rw [hgame, hslot, h.insertedCells.kept .main (by decide) (by decide)]
  · rw [hgame, hslot, h.insertedCells.moved]

theorem Origin.carried (h : Origin rt input p e custom) (hl : Loaded p e₂) (f : Sp2Func) :
    Carried p e e₂ f where
  loadedAt t k o := by
    rw [hl.loadedAt, hl.address]
    simp only [ExeFS.LoadedAt, h.nsos_slot, add_right_inj]
    refine exists_congr fun r => and_congr_right fun hr => ?_
    rw [h.objects_of_ne (h.ne_customRef hr)]
  cells t k hnone := by
    rw [hl.cells, overrideAll_of_forall_none hnone, h.cells_slot]

/-- In a process into which the output of a run has been loaded, the injected module has, from its
first connection on, pointers to the functions that the game had before it was patched. -/
theorem patch_sp2Funcs (hc : rt.codec.Lawful) (h : patch rt input outdir = .ok () out) :
    ∃ p e, prepare rt input = .ok p ∧ ExeFS.ofDirectory rt.codec input.indir = .ok e ∧
      ∀ e₂, ExeFS.ofDirectory rt.codec out = .ok e₂ →
        (∀ i bytes, out (name i) = some bytes → bytes.length < 2 ^ 32) → Clean p outdir →
        (∀ f, Carried p e e₂ f) ∧
        ∀ base perm query, e₂.Loadable → e₂.Loaded base perm → Queries query perm →
          e₂.GameRegions → ∃ n, ∀ fuel, n ≤ fuel → ∀ calls, .initSp2Funcs ∈ calls → ∀ funcs,
            ∃ s, runModule query fuel calls funcs (fun _ => 0) =
              some (e₂.funcAddress base, s) := by
  obtain ⟨p, exefs, hp, hres, hexport⟩ := patch_eq_ok_iff.mp h
  obtain ⟨e, custom, horigin⟩ := prepare_eq_ok hp
  refine ⟨p, e, hp, horigin.loaded, fun e₂ hload hsmall hclean => ⟨fun f => ?_, ?_⟩⟩
  · exact horigin.carried
      (loaded_of_sameGame hres (sameGame_of_export hc hp hexport hload hsmall hclean)) f
  · intro base perm query hloadable hloaded hq hg
    exact hg.exists_runModule hloadable hloaded hq

/-! ### Hooks at run time -/

/-- In the process the branch `k` of `q` goes where `ThisAddr` has the symbol `name`, whatever has
been called before. -/
def HookedAt (e₂ : ExeFS) (symbols : Symbols) (base : UInt64) (query : UInt64 → MemoryInfo)
    (q : PatchEntry) (k : Branch) (name : String) : Prop :=
  ∃ patchAddr word i t off sym, q.address.getAddress e₂ symbols = .ok patchAddr ∧
    (∀ j < 4, e₂.LoadedAt ⟨i, t, off + j⟩ (patchAddr + j) ∧
      e₂.cells ⟨i, t, off + j⟩ = (uintBytes word)[j]?) ∧
    A64.opcode word = k.opcode ∧ symbols.find? (fun sym => sym.1 == name) = some sym ∧
    (TruncationSafe (e₂.getNsoAddress sdk + sym.2.toNat - patchAddr) →
      ∃ n, ∀ fuel, n ≤ fuel → ∀ calls, ∃ addrs s,
        runCalls query fuel (calls ++ [(.thisAddr, sym.2.toUInt64)]) (fun _ => 0) =
          some (addrs ++ [ulongOfLong (A64.branchTarget (base.toNat + patchAddr) word)], s))

theorem branchTarget_add (base pc : ℤ) (word : UInt32) :
    A64.branchTarget (base + pc) word = base + A64.branchTarget pc word := by
  rw [A64.branchTarget, A64.branchTarget, add_assoc]

theorem ulongOfLong_add (base : UInt64) (x : UInt32) (a : ℤ) :
    ulongOfLong (base.toNat + (a + x.toNat)) = base + x.toUInt64 + ulongOfLong a := by
  have hbase := base.toNat_lt
  have hx := x.toNat_lt
  rw [← UInt64.toNat_inj, UInt64.toNat_add, UInt64.toNat_add, ulongOfLong, ulongOfLong,
    UInt64.toNat_ofNat', UInt64.toNat_ofNat', UInt32.toNat_toUInt64]
  omega

theorem Hooked.hookedAt {symbols : Symbols} {q : PatchEntry} {k : Branch} {name : String}
    {base : UInt64} {query : UInt64 → MemoryInfo} (h : Hooked e₂ symbols q k (.symbol name))
    (hagree : e₂.Agrees base query) : HookedAt e₂ symbols base query q k name := by
  obtain ⟨patchAddr, hookAddr, word, i, t, off, hpatch, hhook, hbytes, hopcode, htarget⟩ := h
  cases hsym : symbols.find? fun sym => sym.1 == name with
  | none =>
    simp only [MemAddress.getAddress, hsym] at hhook
    cases hhook
  | some sym =>
    simp only [MemAddress.getAddress, hsym] at hhook
    obtain rfl := Except.ok.inj hhook
    refine ⟨patchAddr, word, i, t, off, sym, hpatch, hbytes, hopcode, hsym, fun hsafe => ?_⟩
    obtain ⟨n, hn⟩ := hagree
    refine ⟨n, fun fuel hfuel calls => ?_⟩
    obtain ⟨s, hrun⟩ := hn fuel hfuel (calls ++ [(.thisAddr, sym.2.toUInt64)])
    rw [List.map_append, List.map_singleton] at hrun
    rw [branchTarget_add, htarget hsafe, ulongOfLong_add]
    exact ⟨_, s, hrun⟩

/-- Where the executable regions start with rtld, main, the old sdk and the custom module, a hook on
a symbol that no later patch writes over goes to where the module finds the symbol itself. -/
theorem patch_hookedAt (hc : rt.codec.Lawful) (h : patch rt input outdir = .ok () out) :
    ∃ p, prepare rt input = .ok p ∧ ∀ e₂, ExeFS.ofDirectory rt.codec out = .ok e₂ →
      (∀ i bytes, out (name i) = some bytes → bytes.length < 2 ^ 32) → Clean p outdir →
      ∀ base perm query, e₂.Loadable → e₂.Loaded base perm → Queries query perm →
      (∀ f, (e₂.nsos (ExeFS.fnSlot f)).isSome) → e₂.RegionsMatch →
      ∀ us q vs k name w, p.patches = us ++ q :: vs → q.data = .branch k (.symbol name) →
        q.write p.exefs p.symbols = some w →
        (∀ v ∈ vs, ∀ c, (p.exefs.cellWrite (some w) c).isSome →
          p.exefs.cellWrite (v.write p.exefs p.symbols) c = none) →
        HookedAt e₂ p.symbols base query q k name := by
  obtain ⟨p, exefs, hp, hres, hexport⟩ := patch_eq_ok_iff.mp h
  refine ⟨p, hp, fun e₂ hload hsmall hclean base perm query hloadable hloaded hq hslots hm
    us q vs k name w hps hdata hw hlast => ?_⟩
  have hgame := loaded_of_sameGame hres (sameGame_of_export hc hp hexport hload hsmall hclean)
  have hagree : e₂.Agrees base query :=
    (hloaded.agrees_iff_regionSlots hloadable hq hslots
      (hloadable.regionSlots_ne_nil (hslots .rtldAddr))).mpr
      ((ExeFS.regionSlots_iff_regionsMatch hloadable hslots).mpr hm)
  exact (hgame.hooked hres hps hdata hw hlast).hookedAt hagree

end Program

/-! ### The process with the hook -/

namespace Nso.SameContent

variable {nso nso' : Nso} (h : nso.SameContent nso')
include h

theorem startAddress : nso'.startAddress = nso.startAddress := h.address .text

theorem endAddress : nso'.endAddress = nso.endAddress := by
  simp only [Nso.endAddress, Nso.rwdataSegment, h.address, h.decompressedSize, h.bssOrAlign]

theorem wellPlaced (hp : nso.WellPlaced) : nso'.WellPlaced := by
  obtain ⟨hzero, htext, hrodata, hend⟩ := hp
  constructor <;>
    simpa only [Nso.textSegment, Nso.rodataSegment, Nso.rwdataSegment, h.address,
      h.decompressedSize, h.bssOrAlign]

end Nso.SameContent

namespace ExeFS

variable {e e₂ : ExeFS} {base : UInt64} {i : NsoTypeEnum} {nso₂ : Nso}

theorem SameGame.exists_nsoAt (h : e.SameGame e₂) (hi : e₂.nsoAt i = some nso₂) :
    ∃ nso, e.nsoAt i = some nso ∧ nso.SameContent nso₂ := by
  obtain ⟨r₂, hr₂, -⟩ := nsoAt_eq_some.mp hi
  obtain ⟨r, hr⟩ := Option.isSome_iff_exists.mp ((h.slots i).symm.trans (by rw [hr₂]; rfl))
  obtain ⟨nso, hnso, hcontent⟩ := h.content i r hr
  obtain rfl := Option.some.inj (hnso.symm.trans hi)
  exact ⟨_, nsoAt_eq_some.mpr ⟨r, hr, rfl⟩, hcontent⟩

theorem SameGame.loadableAt (h : e.SameGame e₂) (hl : e.LoadableAt base) : e₂.LoadableAt base where
  placed i nso₂ hi := by
    obtain ⟨nso, hnso, hcontent⟩ := h.exists_nsoAt hi
    exact hcontent.wellPlaced (hl.placed i nso hnso)
  code i nso₂ hi := by
    obtain ⟨nso, hnso, hcontent⟩ := h.exists_nsoAt hi
    rw [Nso.rodataSegment, hcontent.address]
    exact hl.code i nso hnso
  nonOverlapping a i j hi hj := by
    have hin : ∀ k, e₂.InImage a k → e.InImage a k := by
      intro k hk
      rw [inImage_iff] at hk ⊢
      obtain ⟨nso₂, hnso₂, hk⟩ := hk
      obtain ⟨nso, hnso, hcontent⟩ := h.exists_nsoAt hnso₂
      rw [h.getNsoAddress, hcontent.startAddress, hcontent.endAddress] at hk
      exact ⟨nso, hnso, hk⟩
    exact hl.nonOverlapping a i j (hin i hi) (hin j hj)
  end_le i nso₂ hi := by
    obtain ⟨nso, hnso, hcontent⟩ := h.exists_nsoAt hi
    rw [h.getNsoAddress, hcontent.endAddress]
    exact hl.end_le i nso hnso

theorem SameGame.adjoins (h : e.SameGame e₂) (hj : e₂.Adjoins i) : e.Adjoins i := by
  obtain ⟨k, hk, nso₂, hnso₂, hend⟩ := hj
  obtain ⟨nso, hnso, hcontent⟩ := h.exists_nsoAt hnso₂
  rw [h.getNsoAddress, h.getNsoAddress, Nso.rodataSegment, hcontent.address] at hend
  exact ⟨k, hk, nso, hnso, hend⟩

end ExeFS

theorem loadableAt_hookPatched : hookPatched.LoadableAt 0x8000000 := by
  have hplaced : ∀ i ∈ all, ∀ nso ∈ hookPatched.nsoAt i,
      nso.textSegment.address.toNat = 0 ∧
      nso.textSegment.decompressedSize.toNat ≤ nso.rodataSegment.address.toNat ∧
      nso.rodataSegment.address.toNat + nso.rodataSegment.decompressedSize.toNat ≤
        nso.rwdataSegment.address.toNat ∧
      nso.rwdataSegment.address.toNat + nso.rwdataSegment.decompressedSize.toNat +
        nso.rwdataSegment.bssOrAlign.toNat < 2 ^ 32 := by decide +kernel
  have hcode : ∀ i ∈ all, ∀ nso ∈ hookPatched.nsoAt i,
      0 < nso.rodataSegment.address.toNat := by decide +kernel
  have hend : ∀ i ∈ all, ∀ nso ∈ hookPatched.nsoAt i,
      0x8000000 + hookPatched.getNsoAddress i + nso.endAddress.toNat ≤ 2 ^ 64 := by decide +kernel
  have hle : ∀ i ∈ all, ∀ j ∈ all, i.index < j.index → ∀ nso ∈ hookPatched.nsoAt i,
      ∀ nso' ∈ hookPatched.nsoAt j,
        hookPatched.getNsoAddress i + nso.endAddress.toNat ≤ hookPatched.getNsoAddress j := by
    decide +kernel
  refine ⟨fun i nso hi => ?_, fun i => hcode i (mem_all i), ?_, fun i => hend i (mem_all i)⟩
  · obtain ⟨h₁, h₂, h₃, h₄⟩ := hplaced i (mem_all i) nso hi
    exact ⟨h₁, h₂, h₃, h₄⟩
  · exact ExeFS.nonOverlapping_of_end_le fun i nso j nso' hij hi hj =>
      hle i (mem_all i) j (mem_all j) hij nso hi nso' hj

theorem not_adjoins_hookPatched : ∀ i ∈ [main, subsdk0, sdk], ¬ hookPatched.Adjoins i := by
  decide +kernel

section Process

variable {e₂ : ExeFS} (h : hookPatched.SameGame e₂)
include h

theorem isSome_of_hookPatched : ∀ i ∈ [rtld, main, subsdk0, sdk], (e₂.nsos i).isSome := by
  intro i hi
  rw [h.slots]
  revert i
  decide

theorem gameRegions_of_hookPatched : e₂.GameRegions := by
  have hsome := isSome_of_hookPatched h
  exact ⟨hsome rtld (by decide),
    ⟨hsome main (by decide), fun hadj => not_adjoins_hookPatched main (by decide) (h.adjoins hadj)⟩,
    hsome subsdk0 (by decide),
    fun hadj => not_adjoins_hookPatched subsdk0 (by decide) (h.adjoins hadj)⟩

theorem regionsMatch_of_hookPatched : e₂.RegionsMatch where
  between j hlo hhi hj := by
    rw [h.slots] at hj
    cases j <;> first | exact absurd hlo (by decide) | exact absurd hhi (by decide) | cases hj
  main hadj := not_adjoins_hookPatched main (by decide) (h.adjoins hadj)
  subsdk0 hadj := not_adjoins_hookPatched subsdk0 (by decide) (h.adjoins hadj)
  sdk hadj := not_adjoins_hookPatched sdk (by decide) (h.adjoins hadj)

theorem queries_of_hookPatched :
    Queries (queryMemory (e₂.permissionAt 0x8000000)) (e₂.permissionAt 0x8000000) := by
  have hl := h.loadableAt loadableAt_hookPatched
  exact hl.loaded.queries hl.loadable (by decide) (isSome_of_hookPatched h rtld (by decide))

end Process

/-- The output of the run, loaded into a process at `0x8000000`. -/
theorem patch_sp2Funcs_hook : ∃ out e₂,
    Program.patch hookRuntime hookInput (fun _ => none) = .ok () out ∧
    ExeFS.ofDirectory Lz4Codec.literals out = .ok e₂ ∧
    e₂.Loadable ∧ e₂.Loaded 0x8000000 (e₂.permissionAt 0x8000000) ∧
    Queries (queryMemory (e₂.permissionAt 0x8000000)) (e₂.permissionAt 0x8000000) ∧
    e₂.GameRegions ∧ (∀ f, Program.Carried hookPrepared hookLoaded e₂ f) ∧
    ∃ n, ∀ fuel, n ≤ fuel → ∀ calls, .initSp2Funcs ∈ calls → ∀ funcs, ∃ s,
      runModule (queryMemory (e₂.permissionAt 0x8000000)) fuel calls funcs (fun _ => 0) =
        some (e₂.funcAddress 0x8000000, s) := by
  obtain ⟨out, e₂, hout, hsmall, hload, hsame⟩ := exists_ofDirectory_hook
  have hl := hsame.loadableAt loadableAt_hookPatched
  have hq := queries_of_hookPatched hsame
  have hg := gameRegions_of_hookPatched hsame
  obtain ⟨p, e, hp, he, hfuncs⟩ := Program.patch_sp2Funcs Lz4Codec.lawful_literals hout
  obtain rfl := Except.ok.inj (hp.symm.trans (prepare_hookInput rfl))
  obtain rfl := Except.ok.inj (he.symm.trans (ofDirectory_hookDir rfl))
  obtain ⟨hcarried, hrun⟩ := hfuncs e₂ hload hsmall fun _ _ => rfl
  exact ⟨out, e₂, hout, hload, hl.loadable, hl.loaded, hq, hg, hcarried,
    hrun _ _ _ hl.loadable hl.loaded hq hg⟩

/-- The call in that process. -/
theorem patch_hookedAt_hook : ∃ out e₂,
    Program.patch hookRuntime hookInput (fun _ => none) = .ok () out ∧
    ExeFS.ofDirectory Lz4Codec.literals out = .ok e₂ ∧
    e₂.Loadable ∧ e₂.Loaded 0x8000000 (e₂.permissionAt 0x8000000) ∧
    Queries (queryMemory (e₂.permissionAt 0x8000000)) (e₂.permissionAt 0x8000000) ∧
    (∀ f, (e₂.nsos (ExeFS.fnSlot f)).isSome) ∧ e₂.RegionsMatch ∧
    TruncationSafe (e₂.getNsoAddress sdk + 0x10 - e₂.getNsoAddress main) ∧
    Program.HookedAt e₂ [("f", 0x10)] 0x8000000 (queryMemory (e₂.permissionAt 0x8000000))
      hookEntry .bl "f" := by
  obtain ⟨out, e₂, hout, hsmall, hload, hsame⟩ := exists_ofDirectory_hook
  have hl := hsame.loadableAt loadableAt_hookPatched
  have hq := queries_of_hookPatched hsame
  have hm := regionsMatch_of_hookPatched hsame
  have hslots : ∀ f, (e₂.nsos (ExeFS.fnSlot f)).isSome := by
    intro f
    cases f <;> exact isSome_of_hookPatched hsame _ (by decide)
  have hsafe : TruncationSafe (e₂.getNsoAddress sdk + 0x10 - e₂.getNsoAddress main) := by
    have hdist : hookPatched.getNsoAddress sdk + 0x10 - hookPatched.getNsoAddress main = 0x6010 :=
      by decide +kernel
    rw [hsame.getNsoAddress, hsame.getNsoAddress, hdist, TruncationSafe]
    omega
  obtain ⟨p, hp, hhooked⟩ := Program.patch_hookedAt Lz4Codec.lawful_literals hout
  obtain rfl := Except.ok.inj (hp.symm.trans (prepare_hookInput rfl))
  exact ⟨out, e₂, hout, hload, hl.loadable, hl.loaded, hq, hslots, hm, hsafe,
    hhooked e₂ hload hsmall (fun _ _ => rfl) _ _ _ hl.loadable hl.loaded hq hslots hm [] hookEntry
      [] .bl "f" _ rfl rfl write_hookEntry (by simp)⟩

end Sp2Module
