import Sp2Module.NsoBuffers
import Sp2Module.PatcherReload
import Sp2Module.Pfs0Containment

/-!
# An ExeFS as an archive

An ExeFS is exported into a new directory, and the files of the directory are packed in the order in
which the file system lists them; loading an archive is the way back. Whether the files come back
depends on nothing but how many there are.
-/

namespace Sp2Module

open NsoTypeEnum Pfs0

namespace Pfs0

theorem eq_map_iff_forall_zip {α β : Type*} {g : α → β} {l : List α} {m : List β}
    (h : m.length = l.length) : m = l.map g ↔ ∀ q ∈ l.zip m, q.2 = g q.1 := by
  induction l generalizing m with
  | nil => simpa using List.length_eq_zero_iff.mp h
  | cons a l ih =>
    cases m with
    | nil => simp at h
    | cons b m =>
      rw [List.length_cons, List.length_cons, Nat.add_right_cancel_iff] at h
      simp only [List.map_cons, List.cons.injEq, List.zip_cons_cons, List.forall_mem_cons, ih h]

/-- An archive gives every name, with what the reader finds behind it. -/
theorem extractFiles_buildPfs0 {files : List FileInfo} {stream : Bytes} (dirPath : String)
    (hbuild : buildPfs0 files = .ok stream) (hsize : stream.length < 2 ^ 31)
    (hs : ∀ f ∈ files, NulFree f.name) : extractFiles dirPath stream =
      ⟨List.zipWith (fun f data => (path dirPath f.name, data)) files
        (Sp2Module.pieces stream (readOff files).toNat (files.map (·.data.length))), .ok ()⟩ := by
  obtain ⟨rfl, hlen⟩ := buildPfs0_eq_ok_iff.mp hbuild
  have hsum : (files.map (·.data.length)).sum = (files.map (·.data)).flatten.length := by
    rw [List.length_flatten, List.map_map]
    rfl
  have hw := length_buildTables files
  rw [List.length_append] at hsize
  have hpieces := extractFiles_buildTables dirPath (files.map (·.data)).flatten hs hlen
    (by omega)
  exact hpieces

/-- Where the reader looks instead of where the contents are. -/
theorem readOff_cases (files : List FileInfo) (h : files.length % 4 ≠ 2) :
    readOff files < writtenOff files ∨ readOff files = writtenOff files + 8 ∨
      readOff files = writtenOff files + 16 ∨ readOff files = writtenOff files + 24 := by
  have hrem : files.length % 4 = 0 ∨ files.length % 4 = 1 ∨ files.length % 4 = 3 := by omega
  simp only [readOff, writtenOff, alignUp]
  rcases hrem with hrem | hrem | hrem <;> omega

namespace FileSystem

/-- `ExtractFiles(infile, outdir)` into a new directory; the first path that is not taken ends
it. -/
def extractTo (fs : FileSystem) (dirPath : String) (stream : Bytes) : Except Exception Directory :=
  let x := extractFiles dirPath stream
  if x.written.all fun f => fs.takes f.1 then
    x.outcome.map fun _ name =>
      (fs.place (path dirPath name)).bind (x.written.foldl fs.write fun _ => none)
  else .error .io

variable {fs : FileSystem}

/-- An extraction that gives each file `ds` under its own name. -/
theorem extractTo_of_zip {files : List FileInfo} {ds : List Bytes} {dirPath : String}
    {dir : List String} {stream : Bytes} (hlen : ds.length = files.length)
    (hx : extractFiles dirPath stream =
      ⟨List.zipWith (fun f data => (path dirPath f.name, data)) files ds, .ok ()⟩)
    (hnd : (files.map (·.name)).Nodup)
    (hplace : ∀ f ∈ files, fs.place (path dirPath f.name) = some (dir ++ [f.name])) :
    ∃ back, fs.extractTo dirPath stream = .ok back ∧
      (∀ q ∈ files.zip ds, back q.1.name = some q.2) ∧
      ∀ name, (∀ f ∈ files, f.name ≠ name) →
        fs.place (path dirPath name) = some (dir ++ [name]) → back name = none := by
  have hzip : List.zipWith (fun f data => (path dirPath f.name, data)) files ds =
      (files.zip ds).map fun q => (path dirPath q.1.name, q.2) := by
    rw [List.map_zip_eq_zipWith]
    rfl
  have hq : ∀ q ∈ files.zip ds, fs.place (path dirPath q.1.name) = some (dir ++ [q.1.name]) :=
    fun q hmem => hplace q.1 (List.of_mem_zip (a := q.1) (b := q.2) hmem).1
  have htakes : (((files.zip ds).map fun q => (path dirPath q.1.name, q.2)).all
      fun f => fs.takes f.1) = true := by
    simp only [List.all_map, List.all_eq_true, Function.comp_apply]
    intro q hmem
    rw [takes, hq q hmem]
    rfl
  have hback : fs.extractTo dirPath stream = .ok fun name =>
      (fs.place (path dirPath name)).bind
        (((files.zip ds).map fun q => (path dirPath q.1.name, q.2)).foldl fs.write
          fun _ => none) := by
    rw [extractTo, hx, hzip, if_pos htakes]
    rfl
  refine ⟨_, hback, fun q hmem => ?_, fun name hne hp => ?_⟩
  · rw [hq q hmem, Option.bind_some]
    refine foldl_write_of_mem ?_ (List.mem_map.mpr ⟨q, hmem, rfl⟩) (hq q hmem)
    have hplaces : ((files.zip ds).map fun q => (path dirPath q.1.name, q.2)).map
        (fun f => fs.place f.1) = (files.map (·.name)).map fun name => some (dir ++ [name]) := by
      have hfst : (files.zip ds).map Prod.fst = files := List.map_fst_zip hlen.ge
      conv_rhs => rw [← hfst]
      simp only [List.map_map]
      exact List.map_congr_left hq
    rw [hplaces]
    exact hnd.map fun a b hab => by simpa using hab
  · rw [hp, Option.bind_some, foldl_write_of_ne]
    simp only [List.forall_mem_map]
    intro q hmem hplace'
    rw [hq q hmem] at hplace'
    exact hne q.1 (List.of_mem_zip (a := q.1) (b := q.2) hmem).1 (by simpa using hplace')

end FileSystem
end Pfs0

namespace ExeFS

variable (codec : Lz4Codec AppError)

/-- The names of the files of an ExeFS. -/
def fileNames : List String := all.map name ++ [npdmPath]

/-- `GetFiles()` of a directory that has files of these names only, in the order of the names. -/
def getFiles (names : List String) (dir : Directory) : List FileInfo :=
  names.filterMap fun name => (dir name).map fun data => ⟨name, data⟩

/-- `ExportAsPfs0(outfile)`, where the file system lists names in the order of `names`. -/
def exportAsPfs0 (names : List String) : EStateM Exception ExeFS Bytes := fun e =>
  match exportAsDir codec (e, fun _ => none) with
  | .error x (e, _) => .error x e
  | .ok _ (e, dir) =>
    match buildPfs0 (getFiles names dir) with
    | .error x => .error x e
    | .ok stream => .ok stream e

/-- `FromFile(filepath)`. -/
def fromFile (fs : FileSystem) (outdir : String) (stream : Bytes) : Except Exception ExeFS :=
  match fs.extractTo outdir stream with
  | .error x => .error x
  | .ok dir => ofDirectory codec dir

/-- The number of the files of an ExeFS. -/
def fileCount (e : ExeFS) : ℕ :=
  all.countP (fun i => (e.nsos i).isSome) + e.npdm.isSome.toNat

variable {codec} {names : List String} {dir : Directory} {e e' e₂ : ExeFS} {stream : Bytes}

theorem nodup_fileNames : fileNames.Nodup := by decide

theorem nulFree_fileNames {s : String} (h : s ∈ fileNames) : NulFree s := by
  have hall : ∀ s ∈ fileNames, s.toList.all fun c => c ≠ nul := by decide
  exact nulFree_of_all (hall s h)

theorem forall_mem_fileNames {P : String → Prop} :
    (∀ s ∈ fileNames, P s) ↔ (∀ i, P (name i)) ∧ P npdmPath := by
  simp [fileNames, or_imp, forall_and, mem_all]

theorem mem_getFiles {f : FileInfo} :
    f ∈ getFiles names dir ↔ f.name ∈ names ∧ dir f.name = some f.data := by
  simp only [getFiles, List.mem_filterMap, Option.map_eq_some_iff]
  constructor
  · rintro ⟨name, hname, data, hdata, rfl⟩
    exact ⟨hname, hdata⟩
  · rintro ⟨hname, hdata⟩
    exact ⟨f.name, hname, f.data, hdata, rfl⟩

theorem getFiles_cons (s : String) (names : List String) (dir : Directory) :
    getFiles (s :: names) dir =
      ((dir s).map fun data => FileInfo.mk s data).toList ++ getFiles names dir := by
  rw [getFiles, List.filterMap_cons]
  cases dir s with
  | none => rfl
  | some data => rfl

theorem getFiles_of_none (h : ∀ s ∈ names, dir s = none) : getFiles names dir = [] := by
  rw [getFiles, List.filterMap_eq_nil_iff]
  intro s hs
  rw [h s hs]
  rfl

theorem nodup_getFiles (h : names.Nodup) : ((getFiles names dir).map (·.name)).Nodup := by
  rw [getFiles, List.map_filterMap]
  refine h.filterMap fun s s' b hs hs' => ?_
  simp only [Option.map_map, Option.mem_def, Option.map_eq_some_iff, Function.comp_apply] at hs hs'
  obtain ⟨-, -, rfl⟩ := hs
  obtain ⟨-, -, rfl⟩ := hs'
  rfl

/-- The directory has the files of the ExeFS. -/
structure Holds (dir : Directory) (e : ExeFS) : Prop where
  nsos : ∀ i, (dir (name i)).isSome = (e.nsos i).isSome
  npdm : (dir npdmPath).isSome = e.npdm.isSome

theorem holds_of_exportAsDir (h : exportAsDir codec (e, fun _ => none) = .ok () (e', dir)) :
    Holds dir e := by
  obtain ⟨hfiles, hempty, hnpdm⟩ := exportAsDir_eq_ok h
  refine ⟨fun i => ?_, by rw [hnpdm, Option.or_none]⟩
  cases hi : e.nsos i with
  | none =>
    rw [hempty i hi]
    rfl
  | some r =>
    obtain ⟨file, -, hfile⟩ := hfiles i r hi
    rw [hfile]
    rfl

theorem Holds.length_getFiles (h : Holds dir e) (hnames : names.Perm fileNames) :
    (getFiles names dir).length = e.fileCount := by
  have hcount : ∀ s : String,
      ((dir s).map fun data => FileInfo.mk s data).isSome = (dir s).isSome :=
    fun s => Option.isSome_map
  rw [getFiles, List.length_filterMap_eq_countP, hnames.countP_eq, fileNames, List.countP_append,
    List.countP_map, fileCount]
  simp only [hcount, Function.comp_def, h.nsos]
  cases hn : e.npdm with
  | none => simp [h.npdm, hn]
  | some npdm => simp [h.npdm, hn]

/-- The file of a module begins with a letter. -/
theorem exists_ne_zero_of_writeFile {nso nso' : Nso} {file : Bytes}
    (h : Nso.writeFile codec nso = .ok file nso') (hb : nso.buildId.length = 0x20) :
    ∃ b ∈ file, b ≠ 0 := by
  obtain ⟨comp, -, -, rfl⟩ := (Nso.writeFile_eq_ok hb).mp h
  refine ⟨0x4E, ?_, by decide⟩
  have hmagic : (0x4E : UInt8) ∈ asciiGetBytes Nso.headerMagic := by decide
  simp only [Nso.storedFile, Nso.header, List.mem_append, hmagic, true_or]

/-- The stored segments and the npdm of an ExeFS agree in two directories. -/
theorem ofDirectory_congr {back : Directory} (h : ∀ s ∈ fileNames, back s = dir s) :
    ofDirectory codec back = ofDirectory codec dir := by
  rw [forall_mem_fileNames] at h
  have hload : ∀ is e, loadNsos codec back is e = loadNsos codec dir is e := by
    intro is
    induction is with
    | nil => exact fun e => rfl
    | cons i is ih =>
      intro e
      simp only [loadNsos, h.1 i, ih]
  rw [ofDirectory, ofDirectory, hload, h.2]

theorem exportAsPfs0_eq_ok (h : exportAsPfs0 codec names e = .ok stream e') : ∃ dir,
    exportAsDir codec (e, fun _ => none) = .ok () (e', dir) ∧
      buildPfs0 (getFiles names dir) = .ok stream := by
  unfold exportAsPfs0 at h
  cases hexport : exportAsDir codec (e, fun _ => none) with
  | error x s => simp [hexport] at h
  | ok _ s =>
    obtain ⟨e₁, dir⟩ := s
    simp only [hexport] at h
    cases hbuild : buildPfs0 (getFiles names dir) with
    | error x => simp [hbuild] at h
    | ok bytes =>
      simp only [hbuild] at h
      cases h
      exact ⟨dir, rfl, hbuild⟩

section Archive

variable {fs : FileSystem} {outdir : String} {place : List String}

theorem mem_fileNames_of_mem_getFiles {f : FileInfo} (hnames : names.Perm fileNames)
    (hf : f ∈ getFiles names dir) : f.name ∈ fileNames ∧ dir f.name = some f.data := by
  obtain ⟨hname, hdata⟩ := mem_getFiles.mp hf
  exact ⟨hnames.mem_iff.mp hname, hdata⟩

/-- Every file of an archive comes out under its name, with what the reader finds behind it. -/
theorem extractTo_getFiles (hnames : names.Perm fileNames)
    (hplace : ∀ s ∈ fileNames, fs.place (path outdir s) = some (place ++ [s]))
    (hbuild : buildPfs0 (getFiles names dir) = .ok stream) (hsize : stream.length < 2 ^ 31) :
    ∃ back, fs.extractTo outdir stream = .ok back ∧
      (∀ q ∈ (getFiles names dir).zip (Sp2Module.pieces stream
        (readOff (getFiles names dir)).toNat ((getFiles names dir).map (·.data.length))),
          back q.1.name = some q.2) ∧
      ∀ s ∈ fileNames, dir s = none → back s = none := by
  have hmem : ∀ f ∈ getFiles names dir, f.name ∈ fileNames ∧ dir f.name = some f.data :=
    fun f hf => mem_fileNames_of_mem_getFiles hnames hf
  have hx := extractFiles_buildPfs0 outdir hbuild hsize fun f hf => nulFree_fileNames (hmem f hf).1
  have hplaces : ∀ f ∈ getFiles names dir,
      fs.place (path outdir f.name) = some (place ++ [f.name]) :=
    fun f hf => hplace _ (hmem f hf).1
  obtain ⟨back, hback, hsome, hnone⟩ := FileSystem.extractTo_of_zip
    (by rw [length_pieces, List.length_map]) hx
    (nodup_getFiles (hnames.nodup_iff.mpr nodup_fileNames)) hplaces
  refine ⟨back, hback, hsome, fun s hs hd => hnone s ?_ (hplace s hs)⟩
  rintro f hf rfl
  rw [(hmem f hf).2] at hd
  cases hd

/-- The files that come out of an archive are those of the directory exactly when there are two more
than a multiple of four of them. -/
theorem extractTo_buildPfs0 (hdir : Holds dir e) (hnames : names.Perm fileNames)
    (hplace : ∀ s ∈ fileNames, fs.place (path outdir s) = some (place ++ [s]))
    (hbuild : buildPfs0 (getFiles names dir) = .ok stream) (hsize : stream.length < 2 ^ 31)
    (hfull : ∃ f ∈ getFiles names dir, ∃ b ∈ f.data, b ≠ 0) :
    ∃ back, fs.extractTo outdir stream = .ok back ∧
      ((∀ s ∈ fileNames, back s = dir s) ↔ e.fileCount % 4 = 2) := by
  obtain ⟨back, hback, hsome, hnone⟩ := extractTo_getFiles hnames hplace hbuild hsize
  have hmem : ∀ f ∈ getFiles names dir, f.name ∈ fileNames ∧ dir f.name = some f.data :=
    fun f hf => mem_fileNames_of_mem_getFiles hnames hf
  have hnul : ∀ f ∈ getFiles names dir, NulFree f.name :=
    fun f hf => nulFree_fileNames (hmem f hf).1
  have hx := extractFiles_buildPfs0 outdir hbuild hsize hnul
  refine ⟨back, hback, ?_⟩
  set ds := Sp2Module.pieces stream (readOff (getFiles names dir)).toNat
    ((getFiles names dir).map (·.data.length)) with hds
  have hlen : ds.length = (getFiles names dir).length := by
    rw [hds, length_pieces, List.length_map]
  have hagree : (∀ s ∈ fileNames, back s = dir s) ↔ ds = (getFiles names dir).map (·.data) := by
    constructor
    · intro h
      refine (eq_map_iff_forall_zip hlen).mpr fun q hq => ?_
      obtain ⟨hname, hdata⟩ := hmem q.1 (List.of_mem_zip (a := q.1) (b := q.2) hq).1
      have hsame := h q.1.name hname
      rw [hsome q hq, hdata] at hsame
      exact Option.some.inj hsame
    · intro hall s hs
      rw [hall] at hsome
      cases hd : dir s with
      | none => exact hnone s hs hd
      | some data =>
        have hf : (⟨s, data⟩ : FileInfo) ∈ getFiles names dir :=
          mem_getFiles.mpr ⟨hnames.mem_iff.mpr hs, hd⟩
        have hzip := List.zip_map' (f := id) (g := fun f : FileInfo => f.data)
          (l := getFiles names dir)
        rw [List.map_id] at hzip
        exact hsome (⟨s, data⟩, data) (by rw [hzip]; exact List.mem_map.mpr ⟨_, hf, rfl⟩)
  obtain ⟨f, hf, b, hb, hzero⟩ := hfull
  have hnot : ¬ ((∀ f ∈ getFiles names dir, f.data = []) ∨
      (∀ f ∈ getFiles names dir, ∀ b ∈ f.data, b = 0) ∧
        alignPad 0x20 (strTable (getFiles names dir)).length <
          (16 + 24 * (getFiles names dir).length) % 0x20) := by
    rintro (hempty | ⟨hzeros, -⟩)
    · rw [hempty f hf] at hb
      exact List.not_mem_nil hb
    · exact hzero (hzeros f hf b hb)
  have hiff : extractFiles outdir stream = _ ↔ _ := extractFiles_eq_iff hbuild hsize hnul
  rw [or_iff_left hnot, hdir.length_getFiles hnames, hx, extractionOf, Extraction.mk.injEq,
    and_iff_left rfl, zipWith_files_inj hlen] at hiff
  rw [hagree, hiff]

theorem length_le_of_buildPfs0 {files : List FileInfo} {f : FileInfo}
    (h : buildPfs0 files = .ok stream) (hf : f ∈ files) : f.data.length ≤ stream.length := by
  obtain ⟨rfl, -⟩ := buildPfs0_eq_ok_iff.mp h
  have hsub := List.sublist_flatten_of_mem (List.mem_map.mpr ⟨f, hf, rfl⟩ :
    f.data ∈ files.map (·.data))
  rw [List.length_append]
  exact hsub.length_le.trans (Nat.le_add_left _ _)

/-- The files of an exported archive come back exactly when there are two more than a multiple of
four of them, and then the archive is loaded as the ExeFS that has been exported. -/
theorem fromFile_exportAsPfs0 (hc : codec.Lawful)
    (hs : ∀ i r, e.nsos i = some r → (e.objects r).Storable) (hmodule : ∃ i, (e.nsos i).isSome)
    (hnames : names.Perm fileNames)
    (hplace : ∀ s ∈ fileNames, fs.place (path outdir s) = some (place ++ [s]))
    (h : exportAsPfs0 codec names e = .ok stream e') (hsize : stream.length < 2 ^ 31) :
    ∃ dir back, exportAsDir codec (e, fun _ => none) = .ok () (e', dir) ∧
      fs.extractTo outdir stream = .ok back ∧
      ((∀ s ∈ fileNames, back s = dir s) ↔ e.fileCount % 4 = 2) ∧
      (e.fileCount % 4 = 2 → (∀ i r, e.nsos i = some r → (e.objects r).HeaderReadable) →
        ∃ e₂, fromFile codec fs outdir stream = .ok e₂ ∧ e.SameGame e₂ ∧ e₂.npdm = e.npdm) := by
  obtain ⟨dir, hexport, hbuild⟩ := exportAsPfs0_eq_ok h
  have hdir := holds_of_exportAsDir hexport
  obtain ⟨hfiles, -, hnpdm⟩ := exportAsDir_eq_ok hexport
  have hmem : ∀ s ∈ fileNames, ∀ data, dir s = some data →
      (⟨s, data⟩ : FileInfo) ∈ getFiles names dir :=
    fun s hs data hdata => mem_getFiles.mpr ⟨hnames.mem_iff.mpr hs, hdata⟩
  have hslot : ∀ i : NsoTypeEnum, i.name ∈ fileNames := (forall_mem_fileNames.mp fun s hs => hs).1
  have hfull : ∃ f ∈ getFiles names dir, ∃ b ∈ f.data, b ≠ 0 := by
    obtain ⟨i, hi⟩ := hmodule
    obtain ⟨r, hr⟩ := Option.isSome_iff_exists.mp hi
    obtain ⟨file, hw, hfile⟩ := hfiles i r hr
    exact ⟨⟨i.name, file⟩, hmem _ (hslot i) file hfile,
      exists_ne_zero_of_writeFile hw (hs i r hr).buildId⟩
  obtain ⟨back, hback, hagree⟩ := extractTo_buildPfs0 hdir hnames hplace hbuild hsize hfull
  refine ⟨dir, back, hexport, hback, hagree, fun hcount hheader => ?_⟩
  have hsmall : ∀ i data, dir (name i) = some data → data.length < 2 ^ 32 := by
    intro i data hdata
    have hle := length_le_of_buildPfs0 hbuild (hmem _ (hslot i) data hdata)
    dsimp only at hle
    omega
  have hexportable : e.Exportable codec fun _ => none := by
    refine ⟨fun i hi => rfl, fun hn => rfl, fun i r hr => ?_⟩
    obtain ⟨file, hw, hfile⟩ := hfiles i r hr
    obtain ⟨comp, hcomp, -, rfl⟩ := (Nso.writeFile_eq_ok (hs i r hr).buildId).mp hw
    exact ⟨comp, (hs i r hr).recoverable hc hcomp (hsmall i _ hfile) (hheader i r hr)⟩
  obtain ⟨e₂, hload⟩ := hexportable.exists_ofDirectory hc hs hexport
  refine ⟨e₂, ?_, SameGame.of_export hc hs hexport hload hsmall fun _ _ => rfl, ?_⟩
  · rw [fromFile, hback]
    dsimp only
    rw [ofDirectory_congr (hagree.mpr hcount), hload]
  · rw [(ofDirectory_eq_ok hload).2.2, hnpdm, Option.or_none]

end Archive

/-! ### The first file of an archive -/

section First

variable {fs : FileSystem} {outdir : String} {place : List String}

/-- The first word of the file of a module. -/
def magicWord : UInt32 := uintOfBytes (asciiGetBytes Nso.headerMagic)

theorem wordAt_middle {l r : Bytes} {x : UInt32} {off : ℕ} (h : l.length = off) :
    Nso.wordAt (l ++ (uintBytes x ++ r)) off = x := by
  rw [Nso.wordAt, slice_middle h (length_uintBytes x), uintOfBytes_uintBytes]

theorem wordAt_of_parseFile {bytes : Bytes} {nso : Nso} (h : Nso.parseFile codec bytes = .ok nso) :
    Nso.wordAt bytes 0 = magicWord := by
  obtain ⟨nso₀, br, hparse, -⟩ := Nso.parseFile_eq_ok h
  obtain ⟨magic, b₁, hmagic, hrest⟩ := BinaryReader.bind_eq_ok.mp hparse
  dsimp only at hrest
  split_ifs at hrest with heq
  · obtain ⟨_, _, hthrow, -⟩ := BinaryReader.bind_eq_ok.mp hrest
    cases hthrow
  obtain ⟨-, -, hslice, -⟩ := BinaryReader.readBytes_eq_ok hmagic
  have hbytes : asciiGetBytes (asciiGetString magic) = magic := by
    apply asciiGetBytes_asciiGetString
    rw [not_not.mp heq]
    decide
  rw [magicWord, ← not_not.mp heq, hbytes, hslice]
  rfl

/-- The words of a stored module at the places where a reader may take it up too late. -/
theorem wordAt_storedFile (nso : Nso) (comp : NsoSegmentType → Bytes) :
    Nso.wordAt (nso.storedFile comp) 8 = 0 ∧
      Nso.wordAt (nso.storedFile comp) 16 = nso.firstOffset ∧
      Nso.wordAt (nso.storedFile comp) 24 = nso.textSegment.decompressedSize := by
  have hmagic : (asciiGetBytes Nso.headerMagic).length = 4 := by decide
  have hzero : ulongBytes 0 = uintBytes 0 ++ uintBytes 0 := by decide
  obtain ⟨r, hr⟩ : ∃ r, nso.storedFile comp = asciiGetBytes Nso.headerMagic ++ (uintBytes 0 ++
      (uintBytes 0 ++ (uintBytes nso.flag ++ (uintBytes nso.firstOffset ++
        (uintBytes nso.textSegment.address ++ (uintBytes nso.textSegment.decompressedSize ++
          r)))))) := by
    rw [Nso.storedFile, Nso.header, Nso.segmentTable, Nso.tableEntry, hzero]
    simp only [List.append_assoc]
    exact ⟨_, rfl⟩
  rw [hr]
  refine ⟨?_, ?_, ?_⟩
  · rw [← List.append_assoc]
    exact wordAt_middle (by simp only [List.length_append, hmagic, length_uintBytes])
  · simp only [← List.append_assoc _ _ (uintBytes nso.firstOffset ++ _)]
    exact wordAt_middle (by simp only [List.length_append, hmagic, length_uintBytes])
  · simp only [← List.append_assoc _ _ (uintBytes nso.textSegment.decompressedSize ++ _)]
    exact wordAt_middle (by simp only [List.length_append, hmagic, length_uintBytes])

/-- What the reader takes up in place of the first module does not begin like one. -/
theorem wordAt_readOff_ne {nso : Nso} {comp : NsoSegmentType → Bytes} {files : List FileInfo}
    {data : Bytes} (hb : nso.buildId.length = 0x20) (hcount : files.length % 4 ≠ 2)
    (hoff : nso.firstOffset ≠ magicWord) (hlen : nso.textSegment.decompressedSize ≠ magicWord) :
    Nso.wordAt (buildTables files ++ (nso.storedFile comp ++ data)) (readOff files).toNat ≠
      magicWord := by
  have htables := length_buildTables files
  have hread := readOff_nonneg files
  have hfile : 0x100 ≤ (nso.storedFile comp).length := by
    rw [Nso.length_storedFile hb]
    have := nso.le_firstOffset
    omega
  obtain ⟨h8, h16, h24⟩ := wordAt_storedFile nso comp
  have hlate : ∀ d : ℕ, d + 4 ≤ (nso.storedFile comp).length →
      readOff files = writtenOff files + d →
      Nso.wordAt (buildTables files ++ (nso.storedFile comp ++ data)) (readOff files).toNat =
        Nso.wordAt (nso.storedFile comp) d := by
    intro d hd heq
    have hpos : (readOff files).toNat = (buildTables files).length + d := by omega
    rw [Nso.wordAt, Nso.wordAt, hpos, slice_append_right, slice_append_left hd]
  rcases readOff_cases files hcount with hlt | heq | heq | heq
  · -- the reader begins inside the padding
    intro hword
    have hbytes := uintBytes_uintOfBytes (b := slice (buildTables files ++
      (nso.storedFile comp ++ data)) (readOff files).toNat 4) (by
        rw [length_slice, List.length_append, List.length_append]
        omega)
    rw [← Nso.wordAt, hword] at hbytes
    have hhead := congrArg (·[0]?) hbytes
    have hpad : ((buildTables files).drop (readOff files).toNat)[0]? = some 0 := by
      rw [drop_buildTables, List.getElem?_replicate, if_pos (by omega)]
    rw [List.getElem?_drop] at hpad
    simp only [getElem?_slice, Nat.zero_lt_succ, if_true, List.getElem?_append_left
      (show (readOff files).toNat + 0 < (buildTables files).length by omega), hpad] at hhead
    revert hhead
    decide
  · rw [hlate 8 (by omega) heq, h8]
    decide
  · rw [hlate 16 (by omega) heq, h16]
    exact hoff
  · rw [hlate 24 (by omega) heq, h24]
    exact hlen

/-- Else, where the file system lists a module first, the archive is refused. -/
theorem fromFile_exportAsPfs0_error {i : NsoTypeEnum} {r : NsoRef} {vs : List String}
    (hs : (e.objects r).Storable) (hr : e.nsos i = some r)
    (hnames : (i.name :: vs).Perm fileNames)
    (hplace : ∀ s ∈ fileNames, fs.place (path outdir s) = some (place ++ [s]))
    (h : exportAsPfs0 codec (i.name :: vs) e = .ok stream e') (hsize : stream.length < 2 ^ 31)
    (hcount : e.fileCount % 4 ≠ 2) (hoff : (e.objects r).firstOffset ≠ magicWord)
    (hlen : (e.objects r).textSegment.decompressedSize ≠ magicWord) :
    ∃ x, fromFile codec fs outdir stream = .error x := by
  obtain ⟨dir, hexport, hbuild⟩ := exportAsPfs0_eq_ok h
  have hdir := holds_of_exportAsDir hexport
  obtain ⟨file, hw, hfile⟩ := (exportAsDir_eq_ok hexport).1 i r hr
  obtain ⟨comp, hcomp, -, rfl⟩ := (Nso.writeFile_eq_ok hs.buildId).mp hw
  obtain ⟨back, hback, hsome, -⟩ := extractTo_getFiles hnames hplace hbuild hsize
  have hlist : getFiles (i.name :: vs) dir =
      ⟨i.name, (e.objects r).storedFile comp⟩ :: getFiles vs dir := by
    rw [getFiles_cons, hfile]
    rfl
  have hfirst := hsome (⟨i.name, (e.objects r).storedFile comp⟩, slice stream
    (readOff (getFiles (i.name :: vs) dir)).toNat ((e.objects r).storedFile comp).length) (by
      nth_rewrite 1 3 [hlist]
      exact List.mem_cons_self)
  cases hload : fromFile codec fs outdir stream with
  | error x => exact ⟨x, rfl⟩
  | ok e₂ =>
    rw [fromFile, hback] at hload
    obtain ⟨nso, hparse, -⟩ := (ofDirectory_eq_ok hload).1 i _ hfirst
    have hword := wordAt_of_parseFile hparse
    have hlong : 0x100 ≤ ((e.objects r).storedFile comp).length := by
      rw [Nso.length_storedFile hs.buildId]
      have := (e.objects r).le_firstOffset
      omega
    rw [Nso.wordAt, slice_slice (by omega), Nat.add_zero, ← Nso.wordAt,
      (buildPfs0_eq_ok_iff.mp hbuild).1] at hword
    refine absurd hword ?_
    nth_rewrite 2 [hlist]
    exact wordAt_readOff_ne hs.buildId (by rwa [hdir.length_getFiles hnames]) hoff hlen

end First

/-! ### The archive of a main module -/

section Example

/-- The names in the order of the alphabet. -/
def sortedNames : List String :=
  name main :: npdmPath :: name rtld :: name sdk :: [subsdk0, subsdk1, subsdk2, subsdk3, subsdk4,
    subsdk5, subsdk6, subsdk7, subsdk8, subsdk9].map name

theorem sortedNames_perm : sortedNames.Perm fileNames := by decide

/-- A main module of three bytes, with or without an npdm. -/
def archiveExeFS (npdm : Option Bytes) : ExeFS := { bytesExeFS with npdm := npdm }

theorem exists_exportAsPfs0 (npdm : Option Bytes) (hn : ∀ b ∈ npdm, b.length ≤ 1) :
    ∃ stream e', exportAsPfs0 Lz4Codec.literals sortedNames (archiveExeFS npdm) = .ok stream e' ∧
      stream.length < 2 ^ 31 := by
  have hw : Nso.writeFile Lz4Codec.literals ((archiveExeFS npdm).objects 0) = .ok _ _ :=
    (Nso.writeFile_eq_ok storable_bytesNso.buildId).mpr
      ⟨bytesComp, (recoverable_bytesExeFS 0).stored, rfl, rfl⟩
  obtain ⟨e', dir, hexport⟩ : ∃ e' dir,
      exportAsDir Lz4Codec.literals (archiveExeFS npdm, fun _ => none) = .ok () (e', dir) :=
    exists_exportAsDir (fun _ => none) fun i r _ => ⟨_, _, hw⟩
  obtain ⟨hfiles, hempty, hnpdm⟩ := exportAsDir_eq_ok hexport
  obtain ⟨file, hfile, hmain⟩ := hfiles main 0 rfl
  obtain ⟨rfl, -⟩ := EStateM.Result.ok.inj (hw.symm.trans hfile)
  rw [Option.or_none] at hnpdm
  have hlen : ((Nso.createNso [1] [2] [3] 0).storedFile bytesComp).length = 262 := by
    rw [Nso.length_storedFile storable_bytesNso.buildId]
    decide
  have hrest : ∀ s ∈ name rtld :: name sdk :: [subsdk0, subsdk1, subsdk2, subsdk3, subsdk4, subsdk5,
      subsdk6, subsdk7, subsdk8, subsdk9].map name, dir s = none := by
    have hne : ∀ i : NsoTypeEnum, i ≠ main → dir i.name = none := by
      intro i hi
      apply hempty
      cases i <;> first | rfl | exact absurd rfl hi
    simp only [List.map_cons, List.map_nil, List.forall_mem_cons, List.not_mem_nil, false_imp_iff,
      implies_true, and_true]
    exact ⟨hne _ (by decide), hne _ (by decide), hne _ (by decide), hne _ (by decide),
      hne _ (by decide), hne _ (by decide), hne _ (by decide), hne _ (by decide),
      hne _ (by decide), hne _ (by decide), hne _ (by decide), hne _ (by decide)⟩
  have hlist : getFiles sortedNames dir =
      ⟨"main", (Nso.createNso [1] [2] [3] 0).storedFile bytesComp⟩ ::
        (npdm.map fun data => FileInfo.mk "main.npdm" data).toList := by
    rw [sortedNames, getFiles_cons, hmain, getFiles_cons, hnpdm, getFiles_of_none hrest,
      List.append_nil]
    rfl
  have hmax : ∀ f ∈ getFiles sortedNames dir, f.data.length ≤ maxArrayLength := by
    rw [hlist, List.forall_mem_cons]
    refine ⟨by dsimp only; rw [hlen]; decide, fun f hf => ?_⟩
    obtain ⟨data, hdata, rfl⟩ := Option.map_eq_some_iff.mp (Option.mem_toList.mp hf)
    exact (hn data hdata).trans (by decide)
  obtain ⟨stream, hbuild⟩ : ∃ stream, buildPfs0 (getFiles sortedNames dir) = .ok stream :=
    ⟨_, buildPfs0_eq_ok_iff.mpr ⟨rfl, hmax⟩⟩
  refine ⟨stream, e', by rw [exportAsPfs0, hexport]; simp only [hbuild], ?_⟩
  obtain ⟨rfl, -⟩ := buildPfs0_eq_ok_iff.mp hbuild
  have htables := length_buildTables (getFiles sortedNames dir)
  rw [List.length_append]
  rw [hlist] at htables ⊢
  cases npdm with
  | none =>
    have hoff : writtenOff [⟨"main", (Nso.createNso [1] [2] [3] 0).storedFile bytesComp⟩] = 64 :=
      rfl
    rw [Option.map_none, Option.toList_none, hoff] at htables
    simp only [Option.map_none, Option.toList_none, List.map_cons, List.map_nil,
      List.flatten_cons, List.flatten_nil, List.append_nil, hlen]
    omega
  | some data =>
    have hone := hn data rfl
    have hoff : writtenOff [⟨"main", (Nso.createNso [1] [2] [3] 0).storedFile bytesComp⟩,
        ⟨"main.npdm", data⟩] = 96 := by
      simp only [writtenOff, strTable, List.flatMap_cons, List.flatMap_nil, List.length_cons,
        List.length_nil]
      decide
    rw [Option.map_some, Option.toList_some, hoff] at htables
    simp only [Option.map_some, Option.toList_some, List.map_cons, List.map_nil,
      List.flatten_cons, List.flatten_nil, List.append_nil, List.length_append, hlen]
    omega

theorem plain_place (s : String) (hs : s ∈ fileNames) :
    (FileSystem.relativeTo ["work"]).place (path "out" s) = some (["work", "out"] ++ [s]) := by
  have hall : ∀ s ∈ fileNames, (FileSystem.relativeTo ["work"]).place (path "out" s) =
      some (["work", "out"] ++ [s]) := by decide
  exact hall s hs

/-- With an npdm there are two files. -/
theorem fromFile_exportAsPfs0_pair : ∃ stream e' dir back,
    exportAsPfs0 Lz4Codec.literals sortedNames (archiveExeFS (some [7])) = .ok stream e' ∧
      exportAsDir Lz4Codec.literals (archiveExeFS (some [7]), fun _ => none) = .ok () (e', dir) ∧
      (FileSystem.relativeTo ["work"]).extractTo "out" stream = .ok back ∧
      (∀ s ∈ fileNames, back s = dir s) ∧
      ∃ e₂, fromFile Lz4Codec.literals (.relativeTo ["work"]) "out" stream = .ok e₂ ∧
        (archiveExeFS (some [7])).SameGame e₂ ∧ e₂.npdm = some [7] := by
  obtain ⟨stream, e', h, hsize⟩ := exists_exportAsPfs0 (some [7]) (by simp)
  obtain ⟨dir, back, hexport, hback, hagree, hload⟩ := fromFile_exportAsPfs0
    Lz4Codec.lawful_literals (fun i r _ => storable_bytesNso) ⟨main, rfl⟩ sortedNames_perm
    plain_place h hsize
  have hcount : (archiveExeFS (some [7])).fileCount % 4 = 2 := by decide
  exact ⟨stream, e', dir, back, h, hexport, hback, hagree.mpr hcount,
    hload hcount fun i r _ => (recoverable_bytesExeFS r).header⟩

/-- Without it there is one. -/
theorem fromFile_exportAsPfs0_single : ∃ stream e' x,
    exportAsPfs0 Lz4Codec.literals sortedNames (archiveExeFS none) = .ok stream e' ∧
      fromFile Lz4Codec.literals (.relativeTo ["work"]) "out" stream = .error x := by
  obtain ⟨stream, e', h, hsize⟩ := exists_exportAsPfs0 none (by simp)
  obtain ⟨x, hx⟩ := fromFile_exportAsPfs0_error (i := main) (r := 0) storable_bytesNso rfl
    sortedNames_perm plain_place h hsize (by decide) (by decide) (by decide)
  exact ⟨stream, e', x, h, hx⟩

end Example

end ExeFS
end Sp2Module
