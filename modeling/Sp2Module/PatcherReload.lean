import Sp2Module.PatcherRun

/-!
# The game that comes out of the patcher

The output directory is loaded as a game of the same modules, at the same addresses, with every byte
as the last patch over it has it. So a hook that no later patch overwrites is found in the loaded
game, and the branch in it goes to where the loaded game has the symbol.
-/

namespace Sp2Module

open NsoTypeEnum

namespace ExeFS

variable {codec : Lz4Codec AppError} {e e' e₂ : ExeFS} {dir dir' : Directory} {i : NsoTypeEnum}
  {r : NsoRef}

/-- The module of an occupied slot comes back from the directory it has been exported to. -/
theorem sameContent_of_ofDirectory (hc : codec.Lawful)
    (hs : ∀ i r, e.nsos i = some r → (e.objects r).Storable)
    (hexport : exportAsDir codec (e, dir) = .ok () (e', dir'))
    (hsmall : ∀ i bytes, dir' (name i) = some bytes → bytes.length < 2 ^ 32)
    (hload : ofDirectory codec dir' = .ok e₂) (hr : e.nsos i = some r) :
    ∃ nso, e₂.nsoAt i = some nso ∧ (e.objects r).SameContent nso := by
  obtain ⟨bytes, hw, hbytes⟩ := (exportAsDir_eq_ok hexport).1 i r hr
  obtain ⟨nso₂, hparse, hat⟩ := (ofDirectory_eq_ok hload).1 i bytes hbytes
  exact ⟨nso₂, hat, (hs i r hr).sameContent_of_parseFile hc hw (hsmall i bytes hbytes) hparse⟩

/-- A slot without a module and without an old file stays empty. -/
theorem nsos_of_ofDirectory_eq_none (hexport : exportAsDir codec (e, dir) = .ok () (e', dir'))
    (hload : ofDirectory codec dir' = .ok e₂) (hi : e.nsos i = none) (hdir : dir i.name = none) :
    e₂.nsos i = none := by
  apply (ofDirectory_eq_ok hload).2.1
  rw [(exportAsDir_eq_ok hexport).2.1 i hi, hdir]

/-- `e₂` has the modules of `e`, each with the same content. -/
structure SameGame (e e₂ : ExeFS) : Prop where
  slots : ∀ i, (e₂.nsos i).isSome = (e.nsos i).isSome
  content : ∀ i r, e.nsos i = some r → ∃ nso, e₂.nsoAt i = some nso ∧
    (e.objects r).SameContent nso

/-- An ExeFS comes back from a directory that held no file of a module it does not have. -/
theorem SameGame.of_export (hc : codec.Lawful)
    (hs : ∀ i r, e.nsos i = some r → (e.objects r).Storable)
    (hexport : exportAsDir codec (e, dir) = .ok () (e', dir'))
    (hload : ofDirectory codec dir' = .ok e₂)
    (hsmall : ∀ i bytes, dir' (name i) = some bytes → bytes.length < 2 ^ 32)
    (hclean : ∀ i, e.nsos i = none → dir (name i) = none) : e.SameGame e₂ := by
  have hcontent := fun i r hr =>
    sameContent_of_ofDirectory (i := i) (r := r) hc hs hexport hsmall hload hr
  refine ⟨fun i => ?_, hcontent⟩
  cases hi : e.nsos i with
  | none => rw [nsos_of_ofDirectory_eq_none hexport hload hi (hclean i hi)]
  | some r =>
    obtain ⟨nso, hnso, -⟩ := hcontent i r hi
    obtain ⟨r₂, hr₂, -⟩ := nsoAt_eq_some.mp hnso
    rw [hr₂]
    rfl

theorem SameGame.getNsoAddress (h : e.SameGame e₂) (i : NsoTypeEnum) :
    e₂.getNsoAddress i = e.getNsoAddress i := getNsoAddress_of_sameContent h.slots h.content i

theorem SameGame.nsos_eq_none (h : e.SameGame e₂) (hi : e.nsos i = none) : e₂.nsos i = none := by
  rw [← Option.not_isSome_iff_eq_none, h.slots, hi]
  simp

theorem SameGame.cells (h : e.SameGame e₂) : e₂.cells = e.cells := by
  funext ⟨i, t, k⟩
  cases hi : e.nsos i with
  | none => rw [cells_of_none hi, cells_of_none (h.nsos_eq_none hi)]
  | some r =>
    obtain ⟨nso, hnso, hcontent⟩ := h.content i r hi
    rw [cells_of_nsos hi, ExeFS.cells, hnso, Option.bind_some, hcontent.rawData]

theorem SameGame.loadedAt_iff (h : e.SameGame e₂) {c : Cell} {a : ℤ} :
    e₂.LoadedAt c a ↔ e.LoadedAt c a := by
  cases hi : e.nsos c.slot with
  | none => simp [LoadedAt, hi, h.nsos_eq_none hi]
  | some r =>
    obtain ⟨nso, hnso, hcontent⟩ := h.content _ r hi
    obtain ⟨r₂, hr₂, rfl⟩ := nsoAt_eq_some.mp hnso
    simp only [LoadedAt, hi, hr₂, Option.some.injEq, exists_eq_left', h.getNsoAddress,
      hcontent.address, hcontent.rawData]

end ExeFS

namespace Program

variable {rt : Runtime} {input : Input} {outdir out : Directory} {e₂ : ExeFS}

/-- The output directory held no file of a module that the game does not have. -/
def Clean (p : Prepared) (outdir : Directory) : Prop :=
  ∀ i, p.exefs.nsos i = none → outdir (name i) = none

theorem sameGame_of_export {p : Prepared} {exefs : ExeFS} (hc : rt.codec.Lawful)
    (hp : prepare rt input = .ok p)
    (hexport : ExeFS.exportAsDir rt.codec (p.patched, outdir) = .ok () (exefs, out))
    (hload : ExeFS.ofDirectory rt.codec out = .ok e₂)
    (hsmall : ∀ i bytes, out (name i) = some bytes → bytes.length < 2 ^ 32)
    (hclean : Clean p outdir) : p.patched.SameGame e₂ := by
  obtain ⟨e, custom, horigin⟩ := prepare_eq_ok hp
  have hnsos := (sameLayout_patched p).nsos
  refine ExeFS.SameGame.of_export hc (fun i r hr => ?_) hexport hload hsmall fun i hi => ?_
  · rw [hnsos] at hr
    exact ExeFS.storable_performAll _ (horigin.storable hc hr)
  · exact hclean i (hnsos ▸ hi)

/-- The loaded game has the modules of the prepared one at the same addresses, with every byte as
the last patch over it has it. -/
structure Loaded (p : Prepared) (e₂ : ExeFS) : Prop where
  slots : ∀ i, (e₂.nsos i).isSome = (p.exefs.nsos i).isSome
  address : ∀ i, e₂.getNsoAddress i = p.exefs.getNsoAddress i
  loadedAt : ∀ c a, e₂.LoadedAt c a ↔ p.exefs.LoadedAt c a
  cells : e₂.cells = overrideAll p.exefs.cells p.writes

theorem loaded_of_sameGame {p : Prepared} (hres : ∀ q ∈ p.patches, q.Resolves p.exefs p.symbols)
    (h : p.patched.SameGame e₂) : Loaded p e₂ where
  slots i := by rw [h.slots, (sameLayout_patched p).nsos]
  address i := by rw [h.getNsoAddress, (sameLayout_patched p).getNsoAddress]
  loadedAt c a := by rw [h.loadedAt_iff, ExeFS.LoadedAt.congr (sameLayout_patched p)]
  cells := by rw [h.cells, Prepared.patched, cells_performAll_write hres, Prepared.writes]

/-- What is loaded from an output directory that was clean. -/
theorem patch_loaded (hc : rt.codec.Lawful) (h : patch rt input outdir = .ok () out) :
    ∃ p, prepare rt input = .ok p ∧ (∀ q ∈ p.patches, q.Resolves p.exefs p.symbols) ∧
      ∀ e₂, ExeFS.ofDirectory rt.codec out = .ok e₂ →
        (∀ i bytes, out (name i) = some bytes → bytes.length < 2 ^ 32) → Clean p outdir →
          Loaded p e₂ := by
  obtain ⟨p, exefs, hp, hres, hexport⟩ := patch_eq_ok_iff.mp h
  exact ⟨p, hp, hres, fun e₂ hload hsmall hclean =>
    loaded_of_sameGame hres (sameGame_of_export hc hp hexport hload hsmall hclean)⟩

theorem Loaded.getAddress {p : Prepared} (h : Loaded p e₂) (a : MemAddress) :
    a.getAddress e₂ p.symbols = a.getAddress p.exefs p.symbols := by
  cases a <;> simp only [MemAddress.getAddress, h.address]

/-! ### Hooks -/

/-- The branch `k` of `q` is loaded at the address of `q` and goes to the address of `target`. -/
def Hooked (e₂ : ExeFS) (symbols : Symbols) (q : PatchEntry) (k : Branch) (target : MemAddress) :
    Prop :=
  ∃ patchAddr hookAddr word i t off, q.address.getAddress e₂ symbols = .ok patchAddr ∧
    target.getAddress e₂ symbols = .ok hookAddr ∧
    (∀ j < 4, e₂.LoadedAt ⟨i, t, off + j⟩ (patchAddr + j) ∧
      e₂.cells ⟨i, t, off + j⟩ = (uintBytes word)[j]?) ∧
    A64.opcode word = k.opcode ∧
    (TruncationSafe (hookAddr - patchAddr) → A64.branchTarget patchAddr word = hookAddr)

/-- A branch that is encoded goes to its target, unless its displacement has been truncated to one
that can be encoded. -/
theorem branchTarget_of_truncationSafe {k : Branch} {patchAddr hookAddr : ℤ} {buffer : Bytes}
    (h : ArmUtils.encodeBranch (ArmUtils.branchId k) (uintOfLong (hookAddr - patchAddr)) =
      .ok buffer) (hsafe : TruncationSafe (hookAddr - patchAddr)) :
    A64.branchTarget patchAddr (uintOfBytes buffer) = hookAddr := by
  have hcast := toNat_uintOfLong (hookAddr - patchAddr)
  rw [(branchTarget_encodeBranch patchAddr h).2]
  by_cases henc : ArmUtils.Encodable (uintOfLong (hookAddr - patchAddr))
  · rw [encodable_uintOfLong] at henc
    unfold TruncationSafe at hsafe
    omega
  · obtain ⟨x, hx⟩ := ArmUtils.encodeBranch_of_not_encodable (k := k) henc
    rw [hx] at h
    cases h

/-- A hook that is not skipped and that no later patch writes over is in the loaded game. -/
theorem Loaded.hooked {p : Prepared} (h : Loaded p e₂)
    (hres : ∀ q ∈ p.patches, q.Resolves p.exefs p.symbols) {us vs : List PatchEntry}
    {q : PatchEntry} {k : Branch} {target : MemAddress} {w : ResolvedWrite}
    (hps : p.patches = us ++ q :: vs) (hdata : q.data = .branch k target)
    (hw : q.write p.exefs p.symbols = some w)
    (hlast : ∀ v ∈ vs, ∀ c, (p.exefs.cellWrite (some w) c).isSome →
      p.exefs.cellWrite (v.write p.exefs p.symbols) c = none) :
    Hooked e₂ p.symbols q k target := by
  have hq : q ∈ p.patches := by simp [hps]
  obtain ⟨hlands, hfit⟩ := PatchEntry.lands_of_resolve (hres q hq).resolve_eq
  rw [hw] at hlands
  have hfit := hfit w hw
  obtain ⟨a, i, ha, hbuffer, -, hi, -, hloc⟩ := hlands
  rw [hdata] at hbuffer
  cases htarget : target.getAddress p.exefs p.symbols with
  | error x =>
    cases k <;> simp [PatchData.branch, PatchData.buffer, htarget, bind, Except.bind] at hbuffer
  | ok hookAddr =>
    rw [buffer_branch htarget] at hbuffer
    have hfour : w.bytes.length = 4 := PatchData.length_encodeBranch hbuffer
    obtain ⟨word, hword⟩ : ∃ word, w.bytes = uintBytes word := by
      unfold ArmUtils.encodeBranch at hbuffer
      split_ifs at hbuffer
      exact ⟨_, (Except.ok.inj hbuffer).symm⟩
    have hopcode := (branchTarget_encodeBranch a hbuffer).1
    have htarget' := branchTarget_of_truncationSafe hbuffer
    rw [hword, uintOfBytes_uintBytes] at hopcode htarget'
    unfold ResolvedWrite.Fits at hfit
    refine ⟨a, hookAddr, word, i, w.segment, w.offset, ?_, ?_, fun j hj => ⟨?_, ?_⟩, hopcode,
      htarget'⟩
    · rw [h.getAddress, ha]
    · rw [h.getAddress, htarget]
    · rw [h.loadedAt]
      exact ⟨w.object, hi, by dsimp only; omega, by dsimp only; omega⟩
    · have hset : p.exefs.cellWrite (some w) ⟨i, w.segment, w.offset + j⟩ = w.bytes[j]? := by
        rw [ExeFS.cellWrite, if_pos ⟨hi, rfl, Nat.le_add_right _ _⟩, Nat.add_sub_cancel_left]
      obtain ⟨byte, hbyte⟩ : ∃ byte, w.bytes[j]? = some byte :=
        ⟨_, List.getElem?_eq_getElem (by omega)⟩
      rw [h.cells, Prepared.writes, hps, List.map_append, List.map_cons, hw, ← hword, hbyte]
      apply overrideAll_of_last
      · rw [hset, hbyte]
      · intro f hf
        obtain ⟨v, hv, rfl⟩ := List.mem_map.mp hf
        exact hlast v hv _ (by rw [hset, hbyte]; rfl)

/-- Where the output directory was clean, every hook of the config that is not skipped and that no
later patch writes over is in the game that is loaded from it. -/
theorem patch_hooked (hc : rt.codec.Lawful) (h : patch rt input outdir = .ok () out) :
    ∃ p, prepare rt input = .ok p ∧ ∀ e₂, ExeFS.ofDirectory rt.codec out = .ok e₂ →
      (∀ i bytes, out (name i) = some bytes → bytes.length < 2 ^ 32) → Clean p outdir →
      ∀ us q vs k target w, p.patches = us ++ q :: vs → q.data = .branch k target →
        q.write p.exefs p.symbols = some w →
        (∀ v ∈ vs, ∀ c, (p.exefs.cellWrite (some w) c).isSome →
          p.exefs.cellWrite (v.write p.exefs p.symbols) c = none) →
        Hooked e₂ p.symbols q k target := by
  obtain ⟨p, exefs, hp, hres, hexport⟩ := patch_eq_ok_iff.mp h
  refine ⟨p, hp, fun e₂ hload hsmall hclean us q vs k target w hps hdata hw hlast => ?_⟩
  have hloaded := loaded_of_sameGame hres (sameGame_of_export hc hp hexport hload hsmall hclean)
  exact hloaded.hooked hres hps hdata hw hlast

/-! ### A second run over the output -/

/-- `p₂` is the game of `p` patched and given the custom module `custom` in turn: the first custom
module is where the old `sdk` was, which is gone, and an address in `sdk` means the first custom
module. -/
structure Again (p : Prepared) (custom : Nso) (p₂ : Prepared) : Prop where
  slots : ∀ i, (p₂.exefs.nsos i).isSome ↔
    i = sdk ∨ i = subsdk0 ∨ (p.exefs.nsos i).isSome
  custom : ∀ t k, p₂.exefs.cells ⟨sdk, t, k⟩ = (custom.segments t).rawData[k]?
  first : ∀ t k, p₂.exefs.cells ⟨subsdk0, t, k⟩ = overrideAll p.exefs.cells p.writes ⟨sdk, t, k⟩
  kept : ∀ i, i ≠ subsdk0 → i ≠ sdk → ∀ t k,
    p₂.exefs.cells ⟨i, t, k⟩ = overrideAll p.exefs.cells p.writes ⟨i, t, k⟩
  address : ∀ x t k o, ∃ a, (MemAddress.offset sdk x).getAddress p₂.exefs p₂.symbols = .ok a ∧
    (p₂.exefs.LoadedAt ⟨subsdk0, t, k⟩ (a + o) ↔
      p.exefs.LoadedAt ⟨sdk, t, k⟩ (p.exefs.getNsoAddress sdk + x.toNat + o))

theorem Loaded.isSome_sdk {p : Prepared} (h : Loaded p e₂) (hp : prepare rt input = .ok p) :
    (e₂.nsos sdk).isSome := by
  obtain ⟨e, custom, horigin⟩ := prepare_eq_ok hp
  rw [h.slots, horigin.nsos_sdk]
  rfl

theorem Loaded.again {p p₂ : Prepared} {input₂ : Input} {custom : Nso} (h : Loaded p e₂)
    (hp : prepare rt input = .ok p) (horigin : Origin rt input₂ p₂ e₂ custom) :
    Again p custom p₂ where
  slots i := by
    by_cases hi : i = sdk
    · subst hi
      simp [horigin.nsos_sdk]
    · by_cases hi' : i = subsdk0
      · subst hi'
        simp [horigin.nsos_subsdk0, h.isSome_sdk hp]
      · rw [horigin.nsos_of_ne hi' hi, h.slots]
        simp [hi, hi']
  custom := horigin.insertedCells.custom
  first t k := by rw [horigin.insertedCells.moved, h.cells]
  kept i hi hi' t k := by rw [horigin.insertedCells.kept i hi hi', h.cells]
  address x t k o := by
    refine ⟨p₂.exefs.getNsoAddress subsdk0 + x.toNat, rfl, ?_⟩
    rw [← h.loadedAt, ← h.address]
    simp only [ExeFS.LoadedAt, horigin.nsos_subsdk0, add_assoc, add_right_inj]
    refine exists_congr fun r => and_congr_right fun hr => ?_
    rw [horigin.objects_of_ne (horigin.ne_customRef hr)]

/-- A run over the output of a run whose output directory was clean. -/
theorem patch_again (hc : rt.codec.Lawful) (h : patch rt input outdir = .ok () out) :
    ∃ p, prepare rt input = .ok p ∧ ((∀ i bytes, out (name i) = some bytes →
      bytes.length < 2 ^ 32) → Clean p outdir → ∀ input₂ p₂, input₂.indir = out →
        prepare rt input₂ = .ok p₂ → ∃ nso custom, Nso.parseFile rt.codec input₂.subsdk = .ok nso ∧
          allocModObj nso = .ok () custom ∧ Again p custom p₂) := by
  obtain ⟨p, exefs, hp, hres, hexport⟩ := patch_eq_ok_iff.mp h
  refine ⟨p, hp, fun hsmall hclean input₂ p₂ hin hp₂ => ?_⟩
  obtain ⟨e₂, custom, horigin⟩ := prepare_eq_ok hp₂
  have hload := horigin.loaded
  rw [hin] at hload
  have hloaded := loaded_of_sameGame hres
    (sameGame_of_export hc hp hexport hload hsmall hclean)
  obtain ⟨nso, hparse, halloc⟩ := horigin.allocates
  exact ⟨nso, custom, hparse, halloc, hloaded.again hp horigin⟩

end Program

/-! ### The game with the hook -/

/-- The output of the run, loaded. -/
theorem exists_ofDirectory_hook : ∃ out e₂,
    Program.patch hookRuntime hookInput (fun _ => none) = .ok () out ∧
    (∀ i bytes, out (name i) = some bytes → bytes.length < 2 ^ 32) ∧
    ExeFS.ofDirectory Lz4Codec.literals out = .ok e₂ ∧ hookPatched.SameGame e₂ := by
  obtain ⟨out, hout, hsmall⟩ := patch_hookInput
  obtain ⟨p, exefs, hp, -, hexport⟩ := Program.patch_eq_ok_iff.mp hout
  obtain rfl := Except.ok.inj (hp.symm.trans (prepare_hookInput rfl))
  rw [patched_hookPrepared] at hexport
  obtain ⟨e₂, hload⟩ := exportable_hookPatched.exists_ofDirectory Lz4Codec.lawful_literals
    (fun _ _ => storable_hookPatched) hexport
  exact ⟨out, e₂, hout, hsmall, hload, .of_export Lz4Codec.lawful_literals
    (fun _ _ => storable_hookPatched) hexport hload hsmall fun _ _ => rfl⟩

theorem patch_loaded_hook : ∃ out e₂,
    Program.patch hookRuntime hookInput (fun _ => none) = .ok () out ∧
    ExeFS.ofDirectory Lz4Codec.literals out = .ok e₂ ∧ Program.Loaded hookPrepared e₂ := by
  obtain ⟨out, e₂, hout, hsmall, hload, -⟩ := exists_ofDirectory_hook
  obtain ⟨p, hp, -, hloaded⟩ := Program.patch_loaded Lz4Codec.lawful_literals hout
  obtain rfl := Except.ok.inj (hp.symm.trans (prepare_hookInput rfl))
  exact ⟨out, e₂, hout, hload, hloaded e₂ hload hsmall fun _ _ => rfl⟩

/-- The call is in the game that is loaded from the output. -/
theorem patch_hooked_hook : ∃ out e₂,
    Program.patch hookRuntime hookInput (fun _ => none) = .ok () out ∧
    ExeFS.ofDirectory Lz4Codec.literals out = .ok e₂ ∧
    Program.Hooked e₂ [("f", 0x10)] hookEntry .bl (.symbol "f") := by
  obtain ⟨out, e₂, hout, hsmall, hload, -⟩ := exists_ofDirectory_hook
  obtain ⟨p, hp, hhooked⟩ := Program.patch_hooked Lz4Codec.lawful_literals hout
  obtain rfl := Except.ok.inj (hp.symm.trans (prepare_hookInput rfl))
  exact ⟨out, e₂, hout, hload, hhooked e₂ hload hsmall (fun _ _ => rfl) [] hookEntry [] .bl
    (.symbol "f") _ rfl rfl write_hookEntry (by simp)⟩

/-- A second run with the same module and script over the output of the first one. -/
theorem patch_again_hook : ∃ out p₂,
    Program.patch hookRuntime hookInput (fun _ => none) = .ok () out ∧
    Program.prepare hookRuntime { hookInput with indir := out } = .ok p₂ ∧
    Program.Again hookPrepared hookAllocated p₂ := by
  obtain ⟨out, e₂, hout, hsmall, hload, -⟩ := exists_ofDirectory_hook
  obtain ⟨p, hp, hagain⟩ := Program.patch_again Lz4Codec.lawful_literals hout
  obtain rfl := Except.ok.inj (hp.symm.trans (prepare_hookInput rfl))
  have hp₂ := prepare_of_ofDirectory rfl hload
  obtain ⟨nso, custom, hparse, halloc, h⟩ := hagain hsmall (fun _ _ => rfl) _ _ rfl hp₂
  obtain rfl := Except.ok.inj (hparse.symm.trans parseFile_hookSubsdk)
  rw [allocModObj_hookSubsdk] at halloc
  obtain ⟨-, rfl⟩ := EStateM.Result.ok.inj halloc
  exact ⟨out, _, hout, hp₂, h⟩

end Sp2Module
