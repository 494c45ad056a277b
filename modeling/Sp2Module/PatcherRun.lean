import Sp2Module.PatchBranch
import Sp2Module.Patcher

/-!
# Runs of the patcher

A run that gets to its end leaves an NSO file for every module of the game, with every byte as the
last patch over it has it, and no other file is touched. A run that throws has written nothing,
unless a module of the patched game could not be stored; then the modules before it are complete.
-/

namespace Sp2Module

open NsoTypeEnum

/-! ### The game behind the patches -/

theorem Nso.Storable.overlay {nso : Nso} (h : nso.Storable) (t : NsoSegmentType) (off : ℕ)
    (data : Bytes) : (nso.overlay t off data).Storable := by
  have hraw := length_overwrite (nso.segments t).rawData off data
  exact h.setSegment rfl (h.decompressedSize t) (hraw.trans_le (h.rawData t))
    fun hc => hraw.trans (h.sized t hc)

theorem ExeFS.storable_performAll {e : ExeFS} {r : NsoRef} (ws : List (Option ResolvedWrite))
    (h : (e.objects r).Storable) : ((e.performAll ws).objects r).Storable := by
  induction ws generalizing e with
  | nil => exact h
  | cons place ws ih =>
    apply ih
    cases place with
    | none => exact h
    | some w =>
      by_cases hr : r = w.object
      · subst hr
        rw [perform, objects_overlay_same]
        exact h.overlay _ _ _
      · rw [perform, objects_overlay_of_ne hr]
        exact h

/-- The file an export leaves for a slot is read as what the slot holds. -/
theorem Nso.Storable.parseSegments_of_writeFile {codec : Lz4Codec AppError} {nso nso' : Nso}
    {bytes : Bytes} (hs : nso.Storable) (hc : codec.Lawful)
    (hw : Nso.writeFile codec nso = .ok bytes nso') (hlen : bytes.length < 2 ^ 32) :
    ∃ nso₂ br, Nso.parseSegments codec (.ofBytes bytes) = .ok (nso₂, br) ∧
      nso.SameContent nso₂ := by
  obtain ⟨comp, hcomp, rfl, rfl⟩ := (Nso.writeFile_eq_ok hs.buildId).mp hw
  obtain ⟨br, hbr⟩ := hs.parseSegments_written hc hcomp hlen
  exact ⟨_, br, hbr, Nso.sameContent_written nso comp none⟩

theorem Nso.Storable.sameContent_of_parseFile {codec : Lz4Codec AppError} {nso nso' nso₂ : Nso}
    {bytes : Bytes} (hs : nso.Storable) (hc : codec.Lawful)
    (hw : Nso.writeFile codec nso = .ok bytes nso') (hlen : bytes.length < 2 ^ 32)
    (hparse : Nso.parseFile codec bytes = .ok nso₂) : nso.SameContent nso₂ := by
  obtain ⟨comp, hcomp, rfl, rfl⟩ := (Nso.writeFile_eq_ok hs.buildId).mp hw
  obtain ⟨br, hbr⟩ := hs.parseSegments_written hc hcomp hlen
  obtain ⟨nso₀, br', hbr', hheader⟩ := Nso.parseFile_eq_ok hparse
  rw [hbr] at hbr'
  obtain ⟨rfl, rfl⟩ := Prod.mk.inj (Except.ok.inj hbr')
  rcases hheader with ⟨m, -, rfl⟩ | ⟨message, -, rfl⟩
  · exact Nso.sameContent_written nso comp (some m)
  · exact Nso.sameContent_written nso comp none

namespace ExeFS

variable {codec : Lz4Codec AppError} {e e' : ExeFS} {dir dir' : Directory}

/-- The slots before the one whose module could not be stored have their files, its own file has
been begun, and nothing else has been written. -/
structure Interrupted (codec : Lz4Codec AppError) (e : ExeFS) (dir dir' : Directory)
    (as : List NsoTypeEnum) (i : NsoTypeEnum) : Prop where
  before : ∀ j ∈ as, ∀ r, e.nsos j = some r → ∃ bytes nso,
    Nso.writeFile codec (e.objects r) = .ok bytes nso ∧ dir' j.name = some bytes
  at_slot : ∃ r, e.nsos i = some r ∧ dir' i.name = some (e.objects r).fileStart ∧
    ∃ t x, Nso.stored codec ((e.objects r).segments t) = .error x
  others : ∀ path, (∀ j ∈ i :: as, (e.nsos j).isSome → j.name ≠ path) → dir' path = dir path

theorem flag_placeSegments {ts : List NsoSegmentType} {off : UInt32} {nso nso' : Nso}
    {x : Exception} (h : Nso.placeSegments codec ts off nso = .error x nso') :
    nso'.flag = nso.flag := by
  induction ts generalizing off nso with
  | nil => cases h
  | cons t ts ih =>
    simp only [Nso.placeSegments] at h
    split at h
    · cases h
      rfl
    · split at h
      · case _ hrest =>
        cases h
        exact (ih hrest).trans rfl
      · cases h

theorem writeFile_eq_error {nso nso' : Nso} {x : Exception}
    (h : Nso.writeFile codec nso = .error x nso') :
    nso'.flag = nso.flag ∧ ∃ t x, Nso.stored codec (nso.segments t) = .error x := by
  constructor
  · unfold Nso.writeFile at h
    dsimp only at h
    split at h
    · case _ hplace =>
      cases h
      exact flag_placeSegments hplace
    · cases h
  · by_contra hall
    have hcomp : ∀ t, ∃ comp, Nso.stored codec (nso.segments t) = .ok comp := by
      intro t
      cases hst : Nso.stored codec (nso.segments t) with
      | error x => exact absurd ⟨t, x, hst⟩ hall
      | ok comp => exact ⟨comp, rfl⟩
    choose comp hcomp using hcomp
    rw [Nso.writeFile_eq_ok_iff.mpr ⟨comp, hcomp, rfl, rfl⟩] at h
    cases h

/-- A loop that fails has done so at the first module that cannot be stored. -/
theorem Saved.exportNsos_eq_error {is : List NsoTypeEnum} {e₁ : ExeFS} {x : Exception}
    (hs : Saved codec e e₁) (hnd : is.Nodup)
    (h : exportNsos codec is (e₁, dir) = .error x (e', dir')) :
    ∃ as i bs, is = as ++ i :: bs ∧ Interrupted codec e dir dir' as i := by
  induction is generalizing e₁ dir with
  | nil => cases h
  | cons i is ih =>
    obtain ⟨hi, hnd⟩ := List.nodup_cons.mp hnd
    unfold exportNsos at h
    cases hr : e₁.nsos i with
    | none =>
      simp only [hr] at h
      rw [hs.nsos] at hr
      obtain ⟨as, j, bs, rfl, hint⟩ := ih hs hnd h
      refine ⟨i :: as, j, bs, rfl, ?_, hint.at_slot, fun path hp => ?_⟩
      · intro k hk r hkr
        rcases List.mem_cons.mp hk with rfl | hk
        · rw [hr] at hkr
          cases hkr
        · exact hint.before k hk r hkr
      · refine hint.others path fun k hk => hp k ?_
        rcases List.mem_cons.mp hk with rfl | hk
        · exact List.mem_cons_self
        · exact List.mem_cons_of_mem _ (List.mem_cons_of_mem _ hk)
    | some r =>
      simp only [hr, Nso.buildNso] at h
      rw [hs.nsos] at hr
      cases hw : Nso.writeFile codec (e₁.objects r) with
      | error y nso =>
        simp only [hw] at h
        cases h
        have hobj : e₁.objects r = e.objects r := by
          rcases hs.objects r with heq | ⟨bytes, hbytes⟩
          · exact heq
          · rw [Nso.writeFile_again hbytes] at hw
            cases hw
        rw [hobj] at hw
        obtain ⟨hflag, hst⟩ := writeFile_eq_error hw
        refine ⟨[], i, is, rfl, by simp, ⟨r, hr, ?_, hst⟩, fun path hp => ?_⟩
        · rw [Function.update_self, Nso.fileStart, Nso.fileStart, hflag]
        · exact Function.update_of_ne (hp i List.mem_cons_self (by rw [hr]; rfl)).symm _ _
      | ok bytes nso =>
        simp only [hw] at h
        have hw' := (hs.writeFile r).mp hw
        obtain ⟨as, j, bs, rfl, hint⟩ := ih (hs.setObject hw') hnd h
        refine ⟨i :: as, j, bs, rfl, ?_, hint.at_slot, fun path hp => ?_⟩
        · intro k hk r' hkr
          rcases List.mem_cons.mp hk with rfl | hk
          · rw [hr] at hkr
            cases hkr
            refine ⟨bytes, nso, hw', ?_⟩
            rw [hint.others k.name, Function.update_self]
            intro l hl _ heq
            obtain rfl := name_injective heq
            refine hi ?_
            rcases List.mem_cons.mp hl with rfl | hl
            · simp
            · simp [hl]
          · exact hint.before k hk r' hkr
        · rw [hint.others path]
          · exact Function.update_of_ne (hp i (by simp) (by rw [hr]; rfl)).symm _ _
          · intro k hk
            refine hp k ?_
            rcases List.mem_cons.mp hk with rfl | hk
            · exact List.mem_cons_self
            · exact List.mem_cons_of_mem _ (List.mem_cons_of_mem _ hk)

theorem exportAsDir_eq_error {x : Exception}
    (h : exportAsDir codec (e, dir) = .error x (e', dir')) :
    ∃ as i bs, all = as ++ i :: bs ∧ Interrupted codec e dir dir' as i := by
  unfold exportAsDir at h
  cases hloop : exportNsos codec all (e, dir) with
  | error y s =>
    simp only [hloop] at h
    cases h
    exact (Saved.refl e).exportNsos_eq_error nodup_all hloop
  | ok _ s =>
    obtain ⟨e₁, dir₁⟩ := s
    simp only [hloop] at h
    cases hn : e₁.npdm <;> simp [hn] at h

/-- An export writes no file but those of the occupied slots and the npdm. -/
theorem exportAsDir_of_ne (h : exportAsDir codec (e, dir) = .ok () (e', dir')) {path : String}
    (hslots : ∀ i, (e.nsos i).isSome → i.name ≠ path) (hnpdm : path ≠ npdmPath) :
    dir' path = dir path := by
  unfold exportAsDir at h
  cases hloop : exportNsos codec all (e, dir) with
  | error x s => simp [hloop] at h
  | ok _ s =>
    obtain ⟨e₁, dir₁⟩ := s
    obtain ⟨-, -, -, hother⟩ := (Saved.refl e).exportNsos_eq_ok nodup_all hloop
    have hkeep : dir₁ path = dir path := hother path fun i _ => hslots i
    simp only [hloop] at h
    cases hn : e₁.npdm with
    | none =>
      simp only [hn] at h
      cases h
      exact hkeep
    | some npdm =>
      simp only [hn] at h
      cases h
      rw [Function.update_of_ne hnpdm, hkeep]

end ExeFS

namespace Program

variable {rt : Runtime} {input : Input} {p : Prepared} {outdir out : Directory}

/-- The game with all patches of the config in place. -/
def Prepared.patched (p : Prepared) : ExeFS :=
  p.exefs.performAll (p.patches.map (·.write p.exefs p.symbols))

/-- The bytes the patches set, entry after entry. -/
def Prepared.writes (p : Prepared) : List (Cell → Option UInt8) :=
  p.patches.map fun q => p.exefs.cellWrite (q.write p.exefs p.symbols)

theorem sameLayout_patched (p : Prepared) : p.patched.SameLayout p.exefs :=
  p.exefs.sameLayout_performAll _

theorem npdm_performAll (e : ExeFS) (ws : List (Option ResolvedWrite)) :
    (e.performAll ws).npdm = e.npdm := by
  induction ws generalizing e with
  | nil => rfl
  | cons place ws ih =>
    refine (ih (e.perform place)).trans ?_
    cases place <;> rfl

theorem patch_eq_ok_iff : patch rt input outdir = .ok () out ↔
    ∃ p exefs, prepare rt input = .ok p ∧ (∀ q ∈ p.patches, q.Resolves p.exefs p.symbols) ∧
      ExeFS.exportAsDir rt.codec (p.patched, outdir) = .ok () (exefs, out) := by
  constructor
  · intro h
    unfold patch at h
    cases hp : prepare rt input with
    | error x => simp [hp] at h
    | ok p =>
      simp only [hp] at h
      cases hrun : applyPatches p.symbols p.patches p.exefs with
      | error x z => simp [hrun] at h
      | ok _ z =>
        obtain ⟨hres, hz⟩ := applyPatches_eq_ok_iff.mp hrun
        obtain rfl : z = p.patched := hz
        simp only [hrun] at h
        cases hexport : ExeFS.exportAsDir rt.codec (p.patched, outdir) with
        | error x s => simp [hexport] at h
        | ok _ s =>
          obtain ⟨exefs, dir⟩ := s
          simp only [hexport] at h
          cases h
          exact ⟨p, exefs, rfl, hres, hexport⟩
  · rintro ⟨p, exefs, hp, hres, hexport⟩
    have hrun : applyPatches p.symbols p.patches p.exefs = .ok () p.patched :=
      applyPatches_eq_ok_iff.mpr ⟨hres, rfl⟩
    simp only [patch, hp, hrun, hexport]

/-- The output directory behind a run. The file of an occupied slot is an NSO laid out like the
module of the slot; each byte is the one of the last patch over it. Nothing else but the npdm has
changed. -/
structure Output (rt : Runtime) (p : Prepared) (outdir out : Directory) : Prop where
  files : ∀ i r, p.exefs.nsos i = some r → ∃ bytes, out i.name = some bytes ∧
    (bytes.length < 2 ^ 32 → ∃ nso br,
      Nso.parseSegments rt.codec (.ofBytes bytes) = .ok (nso, br) ∧
      nso.layout = (p.exefs.objects r).layout ∧
      (∀ t, (nso.segments t).sha256 = some (computeHash (nso.segments t).rawData)) ∧
      ∀ t k, (nso.segments t).rawData[k]? = overrideAll p.exefs.cells p.writes ⟨i, t, k⟩)
  npdm : out ExeFS.npdmPath = p.exefs.npdm.or (outdir ExeFS.npdmPath)
  others : ∀ path, (∀ i, (p.exefs.nsos i).isSome → i.name ≠ path) → path ≠ ExeFS.npdmPath →
    out path = outdir path

theorem layout_of_sameContent {nso nso' : Nso} (h : nso.SameContent nso') :
    nso'.layout = nso.layout := by
  funext t
  simp only [Nso.layout, h.address, h.decompressedSize, h.bssOrAlign, h.rawData]

theorem Origin.output {e : ExeFS} {custom : Nso} {exefs : ExeFS} (h : Origin rt input p e custom)
    (hc : rt.codec.Lawful) (hres : ∀ q ∈ p.patches, q.Resolves p.exefs p.symbols)
    (hexport : ExeFS.exportAsDir rt.codec (p.patched, outdir) = .ok () (exefs, out)) :
    Output rt p outdir out := by
  have hsame := sameLayout_patched p
  obtain ⟨hfiles, -, hnpdm⟩ := ExeFS.exportAsDir_eq_ok hexport
  refine ⟨fun i r hr => ?_, ?_, fun path hslots hne => ?_⟩
  · have hr' : p.patched.nsos i = some r := by rw [hsame.nsos, hr]
    obtain ⟨bytes, hw, hbytes⟩ := hfiles i r hr'
    refine ⟨bytes, hbytes, fun hlen => ?_⟩
    have hs : (p.patched.objects r).Storable :=
      ExeFS.storable_performAll _ (h.storable hc hr)
    obtain ⟨nso, br, hparse, hcontent⟩ := hs.parseSegments_of_writeFile hc hw hlen
    refine ⟨nso, br, hparse, ?_, fun t => ?_, fun t k => ?_⟩
    · rw [layout_of_sameContent hcontent, hsame.objects r]
    · rw [hcontent.sha256, hcontent.rawData]
    · rw [hcontent.rawData, ← ExeFS.cells_of_nsos hr', Prepared.patched,
        cells_performAll_write hres, Prepared.writes]
  · rw [hnpdm, Prepared.patched, npdm_performAll]
  · exact ExeFS.exportAsDir_of_ne hexport (fun i hi => hslots i (by rwa [hsame.nsos] at hi)) hne

/-! ### Whole runs -/

section Main

variable {file : String → Option Bytes} {args : List String}
  {dirs dirs' : String → Option Directory} {outPath : String} {x : Exception}

/-- The arguments name the input and, with its path, the output directory. -/
def Given (file : String → Option Bytes) (dirs : String → Option Directory) (args : List String)
    (input : Input) (outPath : String) (outdir : Directory) : Prop :=
  ∃ indir subsdkPath lstFile configFile, args = [indir, subsdkPath, outPath, lstFile, configFile] ∧
    dirs indir = some input.indir ∧ file subsdkPath = some input.subsdk ∧
    dirs outPath = some outdir ∧ file lstFile = some input.lst ∧ file configFile = some input.config

/-- With arguments that are in order the program is `patch`. -/
theorem Given.main_eq {input : Input} {outdir : Directory} (rt : Runtime)
    (h : Given file dirs args input outPath outdir) :
    main rt file args dirs = match patch rt input outdir with
      | .error x out => .error x (Function.update dirs outPath (some out))
      | .ok _ out => .ok .done (Function.update dirs outPath (some out)) := by
  obtain ⟨indir, subsdkPath, lstFile, configFile, rfl, hin, hsub, hout, hlst, hconfig⟩ := h
  obtain ⟨game, subsdk, lst, config⟩ := input
  cases hp : patch rt ⟨game, subsdk, lst, config⟩ outdir with
  | error x out => simp only [main, hin, hsub, hout, hlst, hconfig, hp]
  | ok _ out => simp only [main, hin, hsub, hout, hlst, hconfig, hp]

/-- Else it tells its usage. -/
theorem main_cases (rt : Runtime) (file : String → Option Bytes) (args : List String)
    (dirs : String → Option Directory) :
    main rt file args dirs = .ok .usage dirs ∨
      ∃ input outPath outdir, Given file dirs args input outPath outdir := by
  unfold main
  split
  · case _ indir subsdkPath outPath lstFile configFile =>
    split
    · case _ input subsdk outdir lst config hin hsub hout hlst hconfig =>
      exact Or.inr ⟨⟨input, subsdk, lst, config⟩, outPath, outdir,
        indir, subsdkPath, lstFile, configFile, rfl, hin, hsub, hout, hlst, hconfig⟩
    · exact Or.inl rfl
  · exact Or.inl rfl

/-- A run that gets to its end leaves the patched game in the output directory, and all other
directories as they were. -/
theorem main_done (hc : rt.codec.Lawful) (h : main rt file args dirs = .ok .done dirs') :
    ∃ input outPath outdir out p e custom, Given file dirs args input outPath outdir ∧
      Origin rt input p e custom ∧ InsertedCells e custom p.exefs ∧
      (∀ q ∈ p.patches, q.Resolves p.exefs p.symbols) ∧
      dirs' = Function.update dirs outPath (some out) ∧ Output rt p outdir out := by
  rcases main_cases rt file args dirs with husage | ⟨input, outPath, outdir, hgiven⟩
  · rw [husage] at h
    cases h
  · rw [hgiven.main_eq] at h
    cases hp : patch rt input outdir with
    | error y out => simp [hp] at h
    | ok _ out =>
      simp only [hp, EStateM.Result.ok.injEq, true_and] at h
      obtain ⟨p, exefs, hprepare, hres, hexport⟩ := patch_eq_ok_iff.mp hp
      obtain ⟨e, custom, horigin⟩ := prepare_eq_ok hprepare
      exact ⟨input, outPath, outdir, out, p, e, custom, hgiven, horigin, horigin.insertedCells,
        hres, h.symm, horigin.output hc hres hexport⟩

theorem patch_eq_error (h : patch rt input outdir = .error x out) :
    out = outdir ∨ ∃ p as i bs, prepare rt input = .ok p ∧
      (∀ q ∈ p.patches, q.Resolves p.exefs p.symbols) ∧ all = as ++ i :: bs ∧
      ExeFS.Interrupted rt.codec p.patched outdir out as i := by
  unfold patch at h
  cases hp : prepare rt input with
  | error y =>
    simp only [hp] at h
    cases h
    exact Or.inl rfl
  | ok p =>
    simp only [hp] at h
    cases hrun : applyPatches p.symbols p.patches p.exefs with
    | error y z =>
      simp only [hrun] at h
      cases h
      exact Or.inl rfl
    | ok _ z =>
      obtain ⟨hres, hz⟩ := applyPatches_eq_ok_iff.mp hrun
      obtain rfl : z = p.patched := hz
      simp only [hrun] at h
      cases hexport : ExeFS.exportAsDir rt.codec (p.patched, outdir) with
      | ok _ s => simp [hexport] at h
      | error y s =>
        obtain ⟨exefs, dir⟩ := s
        simp only [hexport] at h
        cases h
        obtain ⟨as, i, bs, hall, hint⟩ := ExeFS.exportAsDir_eq_error hexport
        exact Or.inr ⟨p, as, i, bs, rfl, hres, hall, hint⟩

/-- A run that throws has written nothing, or it has applied all patches and has failed while it
stored a module: then the files of the slots before are there and that of the slot is begun. -/
theorem main_error (h : main rt file args dirs = .error x dirs') :
    dirs' = dirs ∨ ∃ input outPath outdir out p as i bs,
      Given file dirs args input outPath outdir ∧ prepare rt input = .ok p ∧
      (∀ q ∈ p.patches, q.Resolves p.exefs p.symbols) ∧ all = as ++ i :: bs ∧
      dirs' = Function.update dirs outPath (some out) ∧
      ExeFS.Interrupted rt.codec p.patched outdir out as i := by
  rcases main_cases rt file args dirs with husage | ⟨input, outPath, outdir, hgiven⟩
  · rw [husage] at h
    cases h
  · rw [hgiven.main_eq] at h
    cases hp : patch rt input outdir with
    | ok _ out => simp [hp] at h
    | error y out =>
      simp only [hp, EStateM.Result.error.injEq] at h
      obtain ⟨-, rfl⟩ := h
      rcases patch_eq_error hp with rfl | ⟨p, as, i, bs, hprepare, hres, hall, hint⟩
      · obtain ⟨_, _, _, _, -, -, -, hout, -⟩ := hgiven
        left
        rw [← hout, Function.update_eq_self]
      · exact Or.inr ⟨input, outPath, outdir, out, p, as, i, bs, hgiven, hprepare, hres, hall, rfl,
          hint⟩

end Main

end Program

/-! ### A game with a hook -/

def hookRuntime : Runtime where
  codec := Lz4Codec.literals
  compareInfo := .ordinal
  readText := List.map fun b => Char.ofNat b.toNat

/-- A module of three pages. -/
def hookNso (text : Bytes) : Nso := Nso.createNso text [2] [3] 0xFFF

/-- A module of three pages that is not compressed. -/
def hookRtld : Nso :=
  { hookNso [1] with
    flag := 0
    segments := fun t => { (hookNso [1]).segments t with compressed := false } }

def hookNsos : NsoTypeEnum → Option Nso
  | rtld => some hookRtld
  | main => some (hookNso [0, 0, 0, 0])
  | sdk => some (hookNso [4])
  | _ => none

/-- How their segments are stored. -/
def hookComp : NsoTypeEnum → NsoSegmentType → Bytes
  | rtld => Nso.ofSegments [1] [2] [3]
  | main => Nso.ofSegments [0x40, 0, 0, 0, 0] [0x10, 2] [0x10, 3]
  | _ => Nso.ofSegments [0x10, 4] [0x10, 2] [0x10, 3]

def hookDir : Directory := fun path =>
  (all.find? fun i => i.name = path).bind fun i =>
    (hookNsos i).map fun nso => nso.storedFile (hookComp i)

theorem hookDir_name (i : NsoTypeEnum) :
    hookDir i.name = (hookNsos i).map fun nso => nso.storedFile (hookComp i) := by
  have hfind : (all.find? fun j => decide (name j = name i)) = some i := by
    cases i <;> decide
  rw [hookDir, hfind, Option.bind_some]

theorem hookNsos_cases {i : NsoTypeEnum} {nso : Nso} (h : hookNsos i = some nso) :
    (i = rtld ∧ nso = hookRtld) ∨ (i = main ∧ nso = hookNso [0, 0, 0, 0]) ∨
      (i = sdk ∧ nso = hookNso [4]) := by
  cases i
  case rtld => exact Or.inl ⟨rfl, (Option.some.inj h).symm⟩
  case main => exact Or.inr (Or.inl ⟨rfl, (Option.some.inj h).symm⟩)
  case sdk => exact Or.inr (Or.inr ⟨rfl, (Option.some.inj h).symm⟩)
  all_goals cases h

section Modules

variable {i : NsoTypeEnum} {nso : Nso} (h : hookNsos i = some nso)
include h

theorem storable_hookNsos : nso.Storable := by
  rcases hookNsos_cases h with ⟨-, rfl⟩ | ⟨-, rfl⟩ | ⟨-, rfl⟩
  · have hs : (hookNso [1]).Storable :=
      Nso.storable_createNso 0xFFF (by decide) (by decide) (by decide)
    refine ⟨hs.buildId, fun t => ?_, hs.decompressedSize, hs.rawData, fun t h => ?_⟩
    · cases t <;> decide
    · cases h
  · exact Nso.storable_createNso 0xFFF (by decide) (by decide) (by decide)
  · exact Nso.storable_createNso 0xFFF (by decide) (by decide) (by decide)

theorem stored_hookNsos (t : NsoSegmentType) :
    Nso.stored Lz4Codec.literals (nso.segments t) = .ok (hookComp i t) := by
  rcases hookNsos_cases h with ⟨rfl, rfl⟩ | ⟨rfl, rfl⟩ | ⟨rfl, rfl⟩ <;> cases t <;> decide

/-- No module header is found. -/
theorem ofNso_hookNsos : ModHeader.ofNso nso = .error (.app (.nso "Invalid Address")) := by
  have hbase : nso.getModAddr = .error (.app (.nso "Invalid Address")) := by
    rcases hookNsos_cases h with ⟨-, rfl⟩ | ⟨-, rfl⟩ | ⟨-, rfl⟩ <;> decide
  rw [ModHeader.ofNso, hbase]
  rfl

theorem length_hookFile : (nso.storedFile (hookComp i)).length < 2 ^ 32 := by
  rw [Nso.length_storedFile (storable_hookNsos h).buildId]
  rcases hookNsos_cases h with ⟨rfl, rfl⟩ | ⟨rfl, rfl⟩ | ⟨rfl, rfl⟩ <;> decide

end Modules

/-- A module as it is read back. -/
def hookRead (i : NsoTypeEnum) (nso : Nso) : Nso :=
  { nso.written (hookComp i) with modSection := none }

theorem parseFile_hookNsos {i : NsoTypeEnum} {nso : Nso} (h : hookNsos i = some nso) :
    Nso.parseFile Lz4Codec.literals (nso.storedFile (hookComp i)) = .ok (hookRead i nso) := by
  have hs := storable_hookNsos h
  exact ((hs.recoverable Lz4Codec.lawful_literals (stored_hookNsos h) (length_hookFile h)
    (Or.inr ⟨_, ofNso_hookNsos h⟩)).parseFile_of_error Lz4Codec.lawful_literals hs
      (ofNso_hookNsos h))

/-! The custom module: the word to the header, an empty dynamic table, and the header. -/

def hookHeader : ModHeader := ⟨0x2000, -0x1000, 0x1C, 0xF00, 0, 0, 0, some fun _ => 0⟩

def hookData : NsoSegmentType → Bytes :=
  Nso.ofSegments (List.replicate 4 0 ++ uintBytes 0x2000) (List.replicate 0x200 0) hookHeader.raw

/-- As it is built, with the text not yet placed in a file. -/
def hookCustom : Nso where
  flag := 0
  buildId := List.replicate 0x20 0
  segments t :=
    { rawData := hookData t
      compressed := false
      fileOffset := 0
      address := Nso.ofSegments 0 0x1000 0x2000 t
      decompressedSize := Nso.ofSegments 8 0x200 0x1C t
      compressedSize := 0
      bssOrAlign := Nso.ofSegments 0 0 0xEE4 t
      sha256 := none }
  dynamicStringTable := ⟨0, 0⟩
  dynamicSymbolTable := ⟨0, 0⟩
  modSection := none

theorem length_hookData (t : NsoSegmentType) :
    (hookData t).length = Nso.ofSegments 8 0x200 0x1C t := by
  cases t
  · rfl
  · exact List.length_replicate
  · exact hookHeader.length_raw

theorem sized_hookCustom : hookCustom.Sized := by
  intro t
  change (hookData t).length = (Nso.ofSegments 8 0x200 0x1C t : UInt32).toNat
  rw [length_hookData]
  cases t <;> rfl

theorem storable_hookCustom : hookCustom.Storable where
  buildId := List.length_replicate
  compressed t := by cases t <;> decide
  decompressedSize t := by cases t <;> decide
  rawData t := by
    change (hookData t).length ≤ maxArrayLength
    rw [length_hookData]
    cases t <;> decide
  sized t h := by cases h

theorem ofNso_hookCustom : ModHeader.ofNso hookCustom = .ok hookHeader := by
  have hbase : hookCustom.getModAddr = .ok 0x2000 := by decide +kernel
  have hraw : hookCustom.readNso 0x2000 0x1C = .ok hookHeader.raw := by decide +kernel
  have htable : hookCustom.readNso (uintOfLong hookHeader.dynamicAddr) 0x200 =
      .ok (List.replicate 0x200 0) := by decide +kernel
  have hnull : elf64Dyn (BinaryReader.ofBytes (List.replicate 0x200 0)) =
      .ok (⟨0, 0⟩, (BinaryReader.ofBytes (List.replicate 0x200 0)).advance 16) := by decide +kernel
  have hinfo : DynamicInfo.ofNso hookCustom hookHeader.dynamicAddr = .ok fun _ => 0 :=
    except_bind_eq_ok.mpr ⟨_, htable,
      except_bind_eq_ok.mpr ⟨_, DynamicInfo.readEntries_of_null hnull rfl, rfl⟩⟩
  exact ModHeader.ofNso_eq hbase rfl hraw hinfo

/-- As it is read from its file. -/
def hookSubsdk : Nso := { hookCustom.written hookData with modSection := some hookHeader }

theorem parseFile_hookSubsdk :
    Nso.parseFile Lz4Codec.literals (hookCustom.storedFile hookData) = .ok hookSubsdk := by
  have hlen : (hookCustom.storedFile hookData).length < 2 ^ 32 := by
    rw [Nso.length_storedFile storable_hookCustom.buildId, length_hookData, length_hookData,
      length_hookData]
    decide
  exact (storable_hookCustom.recoverable Lz4Codec.lawful_literals (fun _ => rfl) hlen
    (Or.inl ⟨_, ofNso_hookCustom⟩)).parseFile_of_ok Lz4Codec.lawful_literals storable_hookCustom
      ofNso_hookCustom

theorem ofNso_hookSubsdk : ModHeader.ofNso hookSubsdk = .ok hookHeader := by
  have hsame : hookSubsdk.SameImage hookCustom := ⟨fun _ => rfl, fun _ => rfl, fun _ => rfl⟩
  rw [hsame.modHeader, ofNso_hookCustom]

theorem fits_hookSubsdk : hookHeader.Fits hookSubsdk where
  sized := sized_hookCustom
  bssEnd := by decide
  pointer := by decide
  dynamic := by decide
  segment_lt t := by cases t <;> decide
  bss_lt := by decide

/-- After its module object has been allocated. -/
def hookAllocated : Nso :=
  ((growBss hookSubsdk).overlay .text 4 (uintBytes 0x2000)).overlay .rwdata 0
    (hookHeader.withModObj hookSubsdk).raw

theorem allocModObj_hookSubsdk : allocModObj hookSubsdk = .ok () hookAllocated := by
  have hbase : (growBss hookSubsdk).getModAddr = .ok 0x2000 := by decide +kernel
  have hpointer : (growBss hookSubsdk).locate 4 4 = .ok (.text, 4) := by decide +kernel
  have hheader : ((growBss hookSubsdk).overlay .text 4 (uintBytes 0x2000)).locate 0x2000 0x1C =
      .ok (.rwdata, 0) := by
    rw [Nso.locate_congr (Nso.layout_overlay _ _ _ _)]
    decide +kernel
  have hwrite : Nso.writeNso 4 (uintBytes 0x2000) (growBss hookSubsdk) =
      .ok () ((growBss hookSubsdk).overlay .text 4 (uintBytes 0x2000)) := by
    rw [Nso.writeNso_eq, length_uintBytes, hpointer]
  have hwrite' : Nso.writeNso 0x2000 (hookHeader.withModObj hookSubsdk).raw
      ((growBss hookSubsdk).overlay .text 4 (uintBytes 0x2000)) = .ok () hookAllocated := by
    rw [Nso.writeNso_eq, ModHeader.length_raw, ModHeader.headerSize, hheader]
    rfl
  exact allocModObj_eq hbase rfl rfl (estate_bind_eq_ok.mpr ⟨(), _, hwrite, hwrite'⟩)

/-! The run. -/

/-- The call that the script below asks for. -/
def hookEntry : PatchEntry := ⟨.offset .main 0, .branch .bl (.symbol "f")⟩

/-- A script with one call, of the only symbol of the listing. -/
def hookInput : Program.Input where
  indir := hookDir
  subsdk := hookCustom.storedFile hookData
  lst := asciiGetBytes "0000000000000010 T f\n"
  config := asciiGetBytes "bl -> main+0x0 -> !f"

def hookLoaded : ExeFS where
  objects := Function.update (Function.update (Function.update
    (fun _ => Nso.createNso [] [] [] 0) 0 (hookRead rtld hookRtld)) 1
      (hookRead main (hookNso [0, 0, 0, 0]))) 12 (hookRead sdk (hookNso [4]))
  nsos := Function.update (Function.update (Function.update (fun _ => none) rtld (some 0))
    main (some 1)) sdk (some 12)
  npdm := none

theorem ofDirectory_hookDir {codec : Lz4Codec AppError}
    (hdecode : codec.decode = Lz4Codec.literals.decode) :
    ExeFS.ofDirectory codec hookDir = .ok hookLoaded := by
  have hread : ∀ i nso, hookNsos i = some nso → hookDir i.name =
      some (nso.storedFile (hookComp i)) := by
    intro i nso hi
    rw [hookDir_name, hi, Option.map_some]
  have hnone : ∀ i, hookNsos i = none → hookDir (name i) = none := by
    intro i hi
    rw [hookDir_name, hi, Option.map_none]
  have hnpdm : hookDir ExeFS.npdmPath = none := by
    have hfind : (all.find? fun j => decide (name j = ExeFS.npdmPath)) = none := by decide
    rw [hookDir, hfind, Option.bind_none]
  simp only [ExeFS.ofDirectory, all, ExeFS.loadNsos, Nso.parseFile_congr hdecode,
    hread rtld _ rfl, hread main _ rfl, hread sdk _ rfl, hnone subsdk0 rfl, hnone subsdk1 rfl,
    hnone subsdk2 rfl, hnone subsdk3 rfl, hnone subsdk4 rfl, hnone subsdk5 rfl, hnone subsdk6 rfl,
    hnone subsdk7 rfl, hnone subsdk8 rfl, hnone subsdk9 rfl, parseFile_hookNsos (i := rtld) rfl,
    parseFile_hookNsos (i := main) rfl, parseFile_hookNsos (i := sdk) rfl, hnpdm]
  rfl

/-- The game with the custom module. -/
def hookGame : ExeFS :=
  (hookLoaded.setObject Program.customRef hookAllocated).addSdk Program.customRef

def hookPrepared : Program.Prepared := ⟨hookGame, [hookEntry], [("f", 0x10)]⟩

/-- A run with the module and the script over any game. -/
theorem prepare_of_ofDirectory {codec : Lz4Codec AppError} {dir : Directory} {e : ExeFS}
    (hdecode : codec.decode = Lz4Codec.literals.decode)
    (hload : ExeFS.ofDirectory codec dir = .ok e) :
    Program.prepare { hookRuntime with codec := codec } { hookInput with indir := dir } =
      .ok ⟨(e.setObject Program.customRef hookAllocated).addSdk Program.customRef, [hookEntry],
        [("f", 0x10)]⟩ := by
  refine except_bind_eq_ok.mpr ⟨_, hload, except_bind_eq_ok.mpr ⟨_,
    (congrFun (Nso.parseFile_congr hdecode) _).trans parseFile_hookSubsdk,
      except_bind_eq_ok.mpr ⟨_, Program.allocated_eq_ok.mpr allocModObj_hookSubsdk,
        except_bind_eq_ok.mpr ⟨_, ?_, except_bind_eq_ok.mpr ⟨_, ?_, rfl⟩⟩⟩⟩⟩
  · change getHooks hookRuntime.compareInfo (textLines (hookRuntime.readText hookInput.config)) = _
    decide
  · change ListingFile.getSymbols (textLines (hookRuntime.readText hookInput.lst)) = _
    decide +kernel

theorem prepare_hookInput {codec : Lz4Codec AppError}
    (hdecode : codec.decode = Lz4Codec.literals.decode) :
    Program.prepare { hookRuntime with codec := codec } hookInput = .ok hookPrepared :=
  prepare_of_ofDirectory hdecode (ofDirectory_hookDir hdecode)

theorem resolve_hookEntry : hookEntry.resolve hookPrepared.exefs hookPrepared.symbols =
    .ok (some ⟨1, .text, 0, uintBytes 0x94001804⟩) := by decide +kernel

def hookWord : Bytes := uintBytes 0x94001804

/-- The game with the call. -/
def hookPatched : ExeFS := hookGame.overlay 1 .text 0 hookWord

theorem write_hookEntry : hookEntry.write hookPrepared.exefs hookPrepared.symbols =
    some ⟨1, .text, 0, hookWord⟩ := by
  rw [PatchEntry.write, resolve_hookEntry]
  rfl

theorem resolves_hookPrepared :
    ∀ q ∈ hookPrepared.patches, q.Resolves hookPrepared.exefs hookPrepared.symbols := by
  intro q hq
  obtain rfl := List.mem_singleton.mp hq
  exact ⟨_, resolve_hookEntry⟩

theorem patched_hookPrepared : hookPrepared.patched = hookPatched := by
  change ExeFS.perform hookGame (hookEntry.write hookPrepared.exefs hookPrepared.symbols) = _
  rw [write_hookEntry]
  rfl

theorem nsos_hookPatched {i : NsoTypeEnum} {r : NsoRef} (h : hookPatched.nsos i = some r) :
    r = 0 ∨ r = 1 ∨ r = 12 ∨ r = 13 := by
  cases i
  case rtld => exact Or.inl (Option.some.inj h).symm
  case main => exact Or.inr (Or.inl (Option.some.inj h).symm)
  case subsdk0 => exact Or.inr (Or.inr (Or.inl (Option.some.inj h).symm))
  case sdk => exact Or.inr (Or.inr (Or.inr (Option.some.inj h).symm))
  all_goals cases h

theorem storable_hookPatched {i : NsoTypeEnum} {r : NsoRef} (h : hookPatched.nsos i = some r) :
    (hookPatched.objects r).Storable := by
  obtain ⟨e, custom, horigin⟩ := Program.prepare_eq_ok (prepare_hookInput rfl)
  rw [← patched_hookPrepared] at h ⊢
  rw [(Program.sameLayout_patched hookPrepared).nsos] at h
  exact ExeFS.storable_performAll _ (horigin.storable Lz4Codec.lawful_literals h)

/-- How the segments of the modules are stored. -/
def hookStored : NsoRef → NsoSegmentType → Bytes
  | 0 => hookComp rtld
  | 1 => Nso.ofSegments (0x40 :: hookWord) [0x10, 2] [0x10, 3]
  | 12 => hookComp sdk
  | r => fun t => ((hookPatched.objects r).segments t).rawData

theorem headerReadable_hookPatched {i : NsoTypeEnum} {r : NsoRef}
    (h : hookPatched.nsos i = some r) : (hookPatched.objects r).HeaderReadable := by
  have hnone {nso : Nso} (hbase : nso.getModAddr = .error (.app (.nso "Invalid Address"))) :
      nso.HeaderReadable := by
    refine Or.inr ⟨"Invalid Address", ?_⟩
    rw [ModHeader.ofNso, hbase]
    rfl
  rcases nsos_hookPatched h with rfl | rfl | rfl | rfl
  · exact hnone (by decide)
  · exact hnone (by decide)
  · exact hnone (by decide)
  · obtain ⟨nso', m', halloc, hm', -⟩ :=
      exists_modObjAllocated fits_hookSubsdk ofNso_hookSubsdk rfl
    rw [allocModObj_hookSubsdk] at halloc
    cases halloc
    exact Or.inl ⟨m', hm'⟩

theorem recoverable_hookPatched {i : NsoTypeEnum} {r : NsoRef} (h : hookPatched.nsos i = some r) :
    (hookPatched.objects r).Recoverable Lz4Codec.literals (hookStored r) ∧
      ((hookPatched.objects r).storedFile (hookStored r)).length < 2 ^ 32 := by
  have hs := storable_hookPatched h
  have hstored : ∀ t, Nso.stored Lz4Codec.literals ((hookPatched.objects r).segments t) =
      .ok (hookStored r t) := by
    intro t
    rcases nsos_hookPatched h with rfl | rfl | rfl | rfl
    · cases t <;> decide
    · cases t <;> decide
    · cases t <;> decide
    · exact if_neg (by cases t <;> decide)
  have hlen : ((hookPatched.objects r).storedFile (hookStored r)).length < 2 ^ 32 := by
    rw [Nso.length_storedFile hs.buildId]
    rcases nsos_hookPatched h with rfl | rfl | rfl | rfl
    · decide
    · decide
    · decide
    · decide +kernel
  exact ⟨hs.recoverable Lz4Codec.lawful_literals hstored hlen (headerReadable_hookPatched h), hlen⟩

theorem exportable_hookPatched : hookPatched.Exportable Lz4Codec.literals fun _ => none :=
  ⟨fun _ _ => rfl, fun _ => rfl, fun _ _ hr => ⟨_, (recoverable_hookPatched hr).1⟩⟩

/-- The game with the call is stored in files below `2 ^ 32` bytes. -/
theorem exists_exportAsDir_hookPatched : ∃ exefs out,
    ExeFS.exportAsDir Lz4Codec.literals (hookPatched, fun _ => none) = .ok () (exefs, out) ∧
      ∀ i bytes, out (name i) = some bytes → bytes.length < 2 ^ 32 := by
  obtain ⟨exefs, out, hexport⟩ :=
    exportable_hookPatched.exists_exportAsDir fun _ _ => storable_hookPatched
  refine ⟨exefs, out, hexport, fun i bytes hbytes => ?_⟩
  cases hr : hookPatched.nsos i with
  | none =>
    rw [exportable_hookPatched.none_of_exportAsDir hexport hr] at hbytes
    cases hbytes
  | some r =>
    obtain ⟨hrec, hlen⟩ := recoverable_hookPatched hr
    obtain ⟨file, hw, hfile⟩ := (ExeFS.exportAsDir_eq_ok hexport).1 i r hr
    have hw' := (Nso.writeFile_eq_ok (storable_hookPatched hr).buildId).mpr
      ⟨hookStored r, hrec.stored, rfl, rfl⟩
    rw [hw] at hw'
    obtain ⟨rfl, -⟩ := EStateM.Result.ok.inj hw'
    rw [hfile] at hbytes
    rwa [← Option.some.inj hbytes]

theorem patch_hookInput : ∃ out,
    Program.patch hookRuntime hookInput (fun _ => none) = .ok () out ∧
      ∀ i bytes, out (name i) = some bytes → bytes.length < 2 ^ 32 := by
  obtain ⟨exefs, out, hexport, hsmall⟩ := exists_exportAsDir_hookPatched
  rw [← patched_hookPrepared] at hexport
  exact ⟨out, Program.patch_eq_ok_iff.mpr
    ⟨_, exefs, prepare_hookInput rfl, resolves_hookPrepared, hexport⟩, hsmall⟩

/-- The codec cannot encode. -/
def decodingRuntime : Runtime :=
  { hookRuntime with codec := { Lz4Codec.literals with encode := fun _ => .error .outOfMemory } }

/-- Storing the module main fails. -/
theorem patch_decodingRuntime : ∃ x out,
    Program.patch decodingRuntime hookInput (fun _ => none) = .error x out ∧
      ∃ i bytes, out (name i) = some bytes := by
  have hprepare : Program.prepare decodingRuntime hookInput = .ok hookPrepared :=
    prepare_hookInput rfl
  have hrun : applyPatches hookPrepared.symbols hookPrepared.patches hookPrepared.exefs =
      .ok () hookPatched :=
    applyPatches_eq_ok_iff.mpr ⟨resolves_hookPrepared, patched_hookPrepared.symm⟩
  cases hexport : ExeFS.exportAsDir decodingRuntime.codec (hookPatched, fun _ => none) with
  | ok _ s =>
    obtain ⟨file, hw, -⟩ := (ExeFS.exportAsDir_eq_ok hexport).1 main 1 rfl
    obtain ⟨comp, hcomp, -⟩ := Nso.writeFile_eq_ok_iff.mp hw
    cases hcomp .text
  | error x s =>
    obtain ⟨as, i, bs, -, hint⟩ := ExeFS.exportAsDir_eq_error hexport
    obtain ⟨r, -, hfile, -⟩ := hint.at_slot
    refine ⟨x, s.2, ?_, i, _, hfile⟩
    simp only [Program.patch, hprepare, hrun, hexport]

/-- The directories `in`, with the game, and `out`. -/
def hookDirs : String → Option Directory :=
  Function.update (Function.update (fun _ => none) "out" (some fun _ => none)) "in" (some hookDir)

def hookFiles : String → Option Bytes
  | "subsdk" => some hookInput.subsdk
  | "lst" => some hookInput.lst
  | "config" => some hookInput.config
  | _ => none

def hookArgs : List String := ["in", "subsdk", "out", "lst", "config"]

theorem hookDirs_out : hookDirs "out" = some fun _ => none := by
  rw [hookDirs, Function.update_of_ne (by decide), Function.update_self]

theorem given_hookArgs :
    Program.Given hookFiles hookDirs hookArgs hookInput "out" fun _ => none := by
  refine ⟨"in", "subsdk", "lst", "config", rfl, ?_, rfl, hookDirs_out, rfl, rfl⟩
  rw [hookDirs, Function.update_self]
  rfl

theorem main_done_hook : ∃ dirs',
    Program.main hookRuntime hookFiles hookArgs hookDirs = .ok .done dirs' ∧
    ∃ input outPath outdir out p e custom,
      Program.Given hookFiles hookDirs hookArgs input outPath outdir ∧
      Program.Origin hookRuntime input p e custom ∧ Program.InsertedCells e custom p.exefs ∧
      (∀ q ∈ p.patches, q.Resolves p.exefs p.symbols) ∧
      dirs' = Function.update hookDirs outPath (some out) ∧
      Program.Output hookRuntime p outdir out := by
  obtain ⟨out, hout, -⟩ := patch_hookInput
  have hrun := given_hookArgs.main_eq hookRuntime
  rw [hout] at hrun
  exact ⟨_, hrun, Program.main_done Lz4Codec.lawful_literals hrun⟩

/-- With a codec that only decodes the run throws when it comes to the module main. -/
theorem main_error_decoding : ∃ x dirs',
    Program.main decodingRuntime hookFiles hookArgs hookDirs = .error x dirs' ∧
    dirs' ≠ hookDirs ∧ ∃ input outPath outdir out p as i bs,
      Program.Given hookFiles hookDirs hookArgs input outPath outdir ∧
      Program.prepare decodingRuntime input = .ok p ∧
      (∀ q ∈ p.patches, q.Resolves p.exefs p.symbols) ∧ all = as ++ i :: bs ∧
      dirs' = Function.update hookDirs outPath (some out) ∧
      ExeFS.Interrupted decodingRuntime.codec p.patched outdir out as i := by
  obtain ⟨x, out, hpatch, i, bytes, hbytes⟩ := patch_decodingRuntime
  have hrun := given_hookArgs.main_eq decodingRuntime
  rw [hpatch] at hrun
  have hne : Function.update hookDirs "out" (some out) ≠ hookDirs := by
    intro heq
    have hout := congrFun heq "out"
    rw [Function.update_self, hookDirs_out] at hout
    rw [Option.some.inj hout] at hbytes
    cases hbytes
  exact ⟨x, _, hrun, hne, (Program.main_error hrun).resolve_left hne⟩

end Sp2Module
