import Sp2Module.AddSdk
import Sp2Module.ExeFSDirectory
import Sp2Module.ListingFile
import Sp2Module.ModObjFile
import Sp2Module.PatchScript
import Sp2Module.PatchedImage

/-!
# The patcher

The program loads a game from a directory, gives the custom module a module object and the last
slot, applies the patches of the config and exports the game to another directory. Nothing is
written before all patches have been applied. What is loaded from the output is the game with the
custom module, every byte as the last patch over it has it.
-/

namespace Sp2Module

open NsoTypeEnum

/-- `File.ReadAllLines`: a line ends at a newline, at a carriage return or at both of them. -/
def textLines : List Char → List (List Char)
  | [] => []
  | '\r' :: '\n' :: s => [] :: textLines s
  | '\r' :: s => [] :: textLines s
  | '\n' :: s => [] :: textLines s
  | c :: s =>
    match textLines s with
    | [] => [[c]]
    | line :: lines => (c :: line) :: lines

/-- The parts of the runtime library that the program depends on: the LZ4 codec, the comparison of
the current culture and the decoding of text files. -/
structure Runtime where
  codec : Lz4Codec AppError
  compareInfo : CompareInfo
  readText : Bytes → List Char

namespace Program

variable (rt : Runtime)

/-- `AllocModObj`, for an NSO that nothing else refers to. -/
def allocated (custom : Nso) : Except Exception Nso :=
  match allocModObj custom with
  | .error x _ => .error x
  | .ok _ custom => .ok custom

/-- The contents of the input directory and of the three files. -/
structure Input where
  indir : Directory
  subsdk : Bytes
  lst : Bytes
  config : Bytes

/-- The game with the custom module, and what `ApplyPatches` reads before its loop. -/
structure Prepared where
  exefs : ExeFS
  patches : List PatchEntry
  symbols : Symbols

/-- The reference of the custom module, which no slot of a loaded game uses. -/
def customRef : NsoRef := 13

def prepare (input : Input) : Except Exception Prepared := do
  let exefs ← ExeFS.ofDirectory rt.codec input.indir
  let custom ← Nso.parseFile rt.codec input.subsdk
  let custom ← allocated custom
  let exefs := (exefs.setObject customRef custom).addSdk customRef
  let patches ← getHooks rt.compareInfo (textLines (rt.readText input.config))
  let symbols ← ListingFile.getSymbols (textLines (rt.readText input.lst))
  return ⟨exefs, patches, symbols⟩

/-- What `Main` does when its arguments are in order. The state is the output directory. -/
def patch (input : Input) : EStateM Exception Directory Unit := fun outdir =>
  match prepare rt input with
  | .error x => .error x outdir
  | .ok p =>
    match applyPatches p.symbols p.patches p.exefs with
    | .error x _ => .error x outdir
    | .ok _ exefs =>
      match ExeFS.exportAsDir rt.codec (exefs, outdir) with
      | .error x (_, outdir) => .error x outdir
      | .ok _ (_, outdir) => .ok () outdir

/-- What the program says at its end. -/
inductive Message where
  | usage
  | done
deriving DecidableEq, Repr

/-- `Main`. The state is the directories by their paths; `file` is the files that the arguments
name. -/
def main (file : String → Option Bytes) (args : List String) :
    EStateM Exception (String → Option Directory) Message := fun dirs =>
  match args with
  | [indir, subsdkPath, outdir, lstFile, configFile] =>
    match dirs indir, file subsdkPath, dirs outdir, file lstFile, file configFile with
    | some input, some subsdk, some output, some lst, some config =>
      match patch rt ⟨input, subsdk, lst, config⟩ output with
      | .error x output => .error x (Function.update dirs outdir (some output))
      | .ok _ output => .ok .done (Function.update dirs outdir (some output))
    | _, _, _, _, _ => .ok .usage dirs
  | _ => .ok .usage dirs

end Program

/-! ### The custom module -/

theorem writeNso_eq_ok {nso nso' : Nso} {addr : UInt32} {data : Bytes}
    (h : Nso.writeNso addr data nso = .ok () nso') : ∃ t off, nso' = nso.overlay t off data := by
  rw [Nso.writeNso_eq] at h
  cases hl : nso.locate addr data.length with
  | error x => rw [hl] at h; cases h
  | ok p =>
    rw [hl] at h
    cases h
    exact ⟨p.1, p.2, rfl⟩

/-! ### The game before the patches -/

namespace ExeFS

variable {codec : Lz4Codec AppError} {dir : Directory} {is : List NsoTypeEnum} {e e' : ExeFS}
  {i : NsoTypeEnum} {r : NsoRef}

theorem loadNsos_nsos (h : loadNsos codec dir is e = .ok e') (hi : e'.nsos i = some r) :
    e.nsos i = some r ∨ r = i.index := by
  induction is generalizing e with
  | nil =>
    cases h
    exact Or.inl hi
  | cons j is ih =>
    unfold loadNsos at h
    cases hfile : dir j.name with
    | none =>
      simp only [hfile] at h
      exact ih h
    | some file =>
      simp only [hfile] at h
      cases hparse : Nso.parseFile codec file with
      | error x => simp [hparse] at h
      | ok nso =>
        simp only [hparse] at h
        rcases ih h with hset | hr
        · by_cases hij : i = j
          · subst hij
            simp only [setNso, Function.update_self, Option.some.injEq] at hset
            exact Or.inr hset.symm
          · exact Or.inl (by simpa [setNso, hij] using hset)
        · exact Or.inr hr

/-- Each slot of a loaded game has an object of its own. -/
theorem nsos_of_ofDirectory (h : ofDirectory codec dir = .ok e) (hi : e.nsos i = some r) :
    r = i.index := by
  unfold ofDirectory at h
  cases hload : loadNsos codec dir all ⟨fun _ => Nso.createNso [] [] [] 0, fun _ => none, none⟩ with
  | error x => simp [hload] at h
  | ok e₁ =>
    simp only [hload] at h
    cases h
    rcases loadNsos_nsos hload hi with hnone | hr
    · cases hnone
    · exact hr

theorem index_lt_thirteen (i : NsoTypeEnum) : i.index < 13 := by
  cases i <;> decide

end ExeFS

namespace Program

variable {rt : Runtime} {input : Input} {p : Prepared}

/-- How the prepared game came about. -/
structure Origin (rt : Runtime) (input : Input) (p : Prepared) (e : ExeFS) (custom : Nso) :
    Prop where
  loaded : ExeFS.ofDirectory rt.codec input.indir = .ok e
  allocates : ∃ nso, Nso.parseFile rt.codec input.subsdk = .ok nso ∧
    allocModObj nso = .ok () custom
  exefs : p.exefs = (e.setObject customRef custom).addSdk customRef
  patches : getHooks rt.compareInfo (textLines (rt.readText input.config)) = .ok p.patches
  symbols : ListingFile.getSymbols (textLines (rt.readText input.lst)) = .ok p.symbols

theorem allocated_eq_ok {nso custom : Nso} :
    allocated nso = .ok custom ↔ allocModObj nso = .ok () custom := by
  unfold allocated
  cases allocModObj nso <;> simp

theorem prepare_eq_ok (h : prepare rt input = .ok p) : ∃ e custom, Origin rt input p e custom := by
  obtain ⟨e, he, h⟩ := except_bind_eq_ok.mp h
  obtain ⟨nso, hnso, h⟩ := except_bind_eq_ok.mp h
  obtain ⟨custom, hcustom, h⟩ := except_bind_eq_ok.mp h
  obtain ⟨patches, hpatches, h⟩ := except_bind_eq_ok.mp h
  obtain ⟨symbols, hsymbols, h⟩ := except_bind_eq_ok.mp h
  cases h
  exact ⟨e, custom, he, ⟨nso, hnso, allocated_eq_ok.mp hcustom⟩, rfl, hpatches, hsymbols⟩

/-- `g` has the bytes of `e` but for the last slot, which has those of `custom`, and `subsdk0`,
which has those of the old last slot. -/
structure InsertedCells (e : ExeFS) (custom : Nso) (g : ExeFS) : Prop where
  custom : ∀ t k, g.cells ⟨sdk, t, k⟩ = (custom.segments t).rawData[k]?
  moved : ∀ t k, g.cells ⟨subsdk0, t, k⟩ = e.cells ⟨sdk, t, k⟩
  kept : ∀ i, i ≠ subsdk0 → i ≠ sdk → ∀ t k, g.cells ⟨i, t, k⟩ = e.cells ⟨i, t, k⟩

namespace Origin

variable {e : ExeFS} {custom : Nso} (h : Origin rt input p e custom) {i : NsoTypeEnum} {r : NsoRef}
include h

theorem nsos_sdk : p.exefs.nsos sdk = some customRef := by
  rw [h.exefs, ExeFS.nsos_addSdk_sdk]

theorem objects_customRef : p.exefs.objects customRef = custom := by
  rw [h.exefs, ExeFS.objects_addSdk, ExeFS.objects_setObject_same]

theorem nsos_subsdk0 : p.exefs.nsos subsdk0 = e.nsos sdk := by
  rw [h.exefs, ExeFS.nsos_addSdk_subsdk0]
  rfl

theorem nsos_of_ne (hi : i ≠ subsdk0) (hi' : i ≠ sdk) : p.exefs.nsos i = e.nsos i := by
  rw [h.exefs, ExeFS.nsos_addSdk_of_ne hi hi']
  rfl

theorem ne_customRef (hi : e.nsos i = some r) : r ≠ customRef := by
  intro heq
  have hlt := ExeFS.index_lt_thirteen i
  rw [← ExeFS.nsos_of_ofDirectory h.loaded hi, heq] at hlt
  exact absurd hlt (by decide)

/-- A module of the game is the custom module, in the last slot, or one of the input. -/
theorem exists_source (hi : p.exefs.nsos i = some r) :
    (i = sdk ∧ r = customRef) ∨ ∃ j, e.nsos j = some r ∧ r ≠ customRef := by
  by_cases hsdk : i = sdk
  · subst hsdk
    rw [h.nsos_sdk] at hi
    exact Or.inl ⟨rfl, (Option.some.inj hi).symm⟩
  · right
    by_cases hsub : i = subsdk0
    · subst hsub
      rw [h.nsos_subsdk0] at hi
      exact ⟨sdk, hi, h.ne_customRef hi⟩
    · rw [h.nsos_of_ne hsub hsdk] at hi
      exact ⟨i, hi, h.ne_customRef hi⟩

/-- An object of the input is as it was loaded. -/
theorem objects_of_ne (hr : r ≠ customRef) : p.exefs.objects r = e.objects r := by
  rw [h.exefs, ExeFS.objects_addSdk, ExeFS.objects_setObject_of_ne hr]

/-- The cells of the game are those of the input, with the custom module in the last slot and the
old one of that slot in `subsdk0`, whose module is gone. -/
theorem insertedCells : InsertedCells e custom p.exefs where
  custom t k := by rw [ExeFS.cells_of_nsos h.nsos_sdk, h.objects_customRef]
  moved t k := by
    cases hr : e.nsos sdk with
    | none => rw [ExeFS.cells_of_none hr, ExeFS.cells_of_none (h.nsos_subsdk0.trans hr)]
    | some r =>
      rw [ExeFS.cells_of_nsos hr, ExeFS.cells_of_nsos (h.nsos_subsdk0.trans hr),
        h.objects_of_ne (h.ne_customRef hr)]
  kept i hi hi' t k := by
    cases hr : e.nsos i with
    | none => rw [ExeFS.cells_of_none hr, ExeFS.cells_of_none ((h.nsos_of_ne hi hi').trans hr)]
    | some r =>
      rw [ExeFS.cells_of_nsos hr, ExeFS.cells_of_nsos ((h.nsos_of_ne hi hi').trans hr),
        h.objects_of_ne (h.ne_customRef hr)]

/-- Every module of the game can be stored. -/
theorem storable (hc : rt.codec.Lawful) (hi : p.exefs.nsos i = some r) :
    (p.exefs.objects r).Storable := by
  rcases h.exists_source hi with ⟨rfl, rfl⟩ | ⟨j, hj, hne⟩
  · obtain ⟨nso, hparse, halloc⟩ := h.allocates
    rw [h.objects_customRef]
    exact storable_allocModObj (Nso.storable_of_parseFile hc hparse) halloc
  · rw [h.objects_of_ne hne]
    obtain ⟨hload, hempty, -⟩ := ExeFS.ofDirectory_eq_ok h.loaded
    cases hfile : input.indir j.name with
    | none =>
      rw [hempty j hfile] at hj
      cases hj
    | some file =>
      obtain ⟨nso, hparse, hat⟩ := hload j file hfile
      obtain ⟨r', hr', rfl⟩ := ExeFS.nsoAt_eq_some.mp hat
      rw [hj] at hr'
      cases hr'
      exact Nso.storable_of_parseFile hc hparse

end Origin

end Program

end Sp2Module
