import Sp2Module.ExeFSPlacement
import Sp2Module.NsoRoundTrip

/-!
# ExeFS directories

An ExeFS is kept as a directory with a file for each occupied slot, named after the slot, and the
file `main.npdm`. Exporting writes the files that are there and removes none, so that what comes
back when the directory is loaded depends on what it held before.
-/

namespace Sp2Module

namespace NsoTypeEnum

/-- The name of a slot, as the enumeration prints it. -/
def name : NsoTypeEnum → String
  | rtld => "rtld"
  | main => "main"
  | subsdk0 => "subsdk0"
  | subsdk1 => "subsdk1"
  | subsdk2 => "subsdk2"
  | subsdk3 => "subsdk3"
  | subsdk4 => "subsdk4"
  | subsdk5 => "subsdk5"
  | subsdk6 => "subsdk6"
  | subsdk7 => "subsdk7"
  | subsdk8 => "subsdk8"
  | subsdk9 => "subsdk9"
  | sdk => "sdk"

theorem name_injective {i j : NsoTypeEnum} (h : i.name = j.name) : i = j := by
  have hnames : ∀ i ∈ all, ∀ j ∈ all, i.name = j.name → i = j := by decide
  exact hnames i (mem_all i) j (mem_all j) h

end NsoTypeEnum

/-- The files of a directory. -/
abbrev Directory := String → Option Bytes

namespace Nso

/-- What a file begins with when storing a segment throws. -/
def fileStart (nso : Nso) : Bytes :=
  asciiGetBytes headerMagic ++ (ulongBytes 0 ++ uintBytes nso.flag)

/-- `BuildNso(path)`; the file is created before anything is written. -/
def buildNso (codec : Lz4Codec AppError) (path : String) :
    EStateM Exception (Nso × Directory) Unit := fun (nso, dir) =>
  match writeFile codec nso with
  | .ok file nso => .ok () (nso, Function.update dir path (some file))
  | .error x nso => .error x (nso, Function.update dir path (some nso.fileStart))

end Nso

namespace ExeFS

open NsoTypeEnum

def npdmPath : String := "main.npdm"

theorem name_ne_npdmPath (i : NsoTypeEnum) : i.name ≠ npdmPath := by
  cases i <;> decide

variable (codec : Lz4Codec AppError)

/-- The loop of `ExportAsDir`. -/
def exportNsos : List NsoTypeEnum → EStateM Exception (ExeFS × Directory) Unit
  | [], s => .ok () s
  | i :: is, (e, dir) =>
    match e.nsos i with
    | none => exportNsos is (e, dir)
    | some r =>
      match Nso.buildNso codec i.name (e.objects r, dir) with
      | .error x (nso, dir) => .error x (e.setObject r nso, dir)
      | .ok _ (nso, dir) => exportNsos is (e.setObject r nso, dir)

def exportAsDir : EStateM Exception (ExeFS × Directory) Unit := fun s =>
  match exportNsos codec all s with
  | .error x s => .error x s
  | .ok _ (e, dir) =>
    match e.npdm with
    | none => .ok () (e, dir)
    | some npdm => .ok () (e, Function.update dir npdmPath (some npdm))

/-- The loop of `ExeFS(dirpath)`; the object of a slot gets the slot's index as its reference. -/
def loadNsos (dir : Directory) : List NsoTypeEnum → ExeFS → Except Exception ExeFS
  | [], e => .ok e
  | i :: is, e =>
    match dir i.name with
    | none => loadNsos dir is e
    | some file =>
      match Nso.parseFile codec file with
      | .error x => .error x
      | .ok nso => loadNsos dir is ((e.setObject i.index nso).setNso (some i.index) i)

/-- `ExeFS(dirpath)`. -/
def ofDirectory (dir : Directory) : Except Exception ExeFS :=
  match loadNsos codec dir all ⟨fun _ => Nso.createNso [] [] [] 0, fun _ => none, none⟩ with
  | .error x => .error x
  | .ok e => .ok { e with npdm := dir npdmPath }

/-! ### Loading -/

section Load

variable {codec} {dir : Directory} {is : List NsoTypeEnum} {e e' : ExeFS}

theorem exists_loadNsos (e : ExeFS) (h : ∀ i ∈ is, ∀ file, dir i.name = some file →
    ∃ nso, Nso.parseFile codec file = .ok nso) : ∃ e', loadNsos codec dir is e = .ok e' := by
  induction is generalizing e with
  | nil => exact ⟨e, rfl⟩
  | cons i is ih =>
    have htail := fun e => ih e fun j hj => h j (List.mem_cons_of_mem i hj)
    unfold loadNsos
    cases hi : dir i.name with
    | none => exact htail e
    | some file =>
      obtain ⟨nso, hnso⟩ := h i List.mem_cons_self file hi
      simp only [hnso]
      exact htail _

/-- Each file that is there has been parsed into the object of its slot, the other slots and objects
are as they were. -/
theorem loadNsos_eq_ok (hnd : is.Nodup) (h : loadNsos codec dir is e = .ok e') :
    (∀ i ∈ is, ∀ file, dir i.name = some file →
      ∃ nso, Nso.parseFile codec file = .ok nso ∧ e'.nsoAt i = some nso) ∧
    (∀ i, (i ∈ is → dir i.name = none) → e'.nsos i = e.nsos i) ∧
    ∀ r, (∀ i ∈ is, i.index ≠ r) → e'.objects r = e.objects r := by
  induction is generalizing e with
  | nil =>
    cases h
    exact ⟨by simp, fun _ _ => rfl, fun _ _ => rfl⟩
  | cons i is ih =>
    obtain ⟨hi, hnd⟩ := List.nodup_cons.mp hnd
    unfold loadNsos at h
    cases hfile : dir i.name with
    | none =>
      simp only [hfile] at h
      obtain ⟨hload, hnsos, hobjects⟩ := ih hnd h
      refine ⟨?_, ?_, fun r hr => hobjects r fun j hj => hr j (List.mem_cons_of_mem i hj)⟩
      · intro j hj file hf
        rcases List.mem_cons.mp hj with rfl | hj
        · rw [hfile] at hf
          cases hf
        · exact hload j hj file hf
      · intro j hj
        exact hnsos j fun hmem => hj (List.mem_cons_of_mem i hmem)
    | some file =>
      simp only [hfile] at h
      cases hparse : Nso.parseFile codec file with
      | error x => simp [hparse] at h
      | ok nso =>
        simp only [hparse] at h
        obtain ⟨hload, hnsos, hobjects⟩ := ih hnd h
        refine ⟨?_, ?_, ?_⟩
        · intro j hj file' hf
          rcases List.mem_cons.mp hj with rfl | hj
          · rw [hfile] at hf
            cases hf
            refine ⟨nso, hparse, nsoAt_eq_some.mpr ⟨j.index, ?_, ?_⟩⟩
            · rw [hnsos j fun hmem => absurd hmem hi]
              exact Function.update_self _ _ _
            · rw [hobjects j.index fun k hk heq => hi (index_injective heq ▸ hk)]
              exact Function.update_self _ _ _
          · exact hload j hj file' hf
        · intro j hj
          have hne : j ≠ i := by
            rintro rfl
            rw [hj List.mem_cons_self] at hfile
            cases hfile
          rw [hnsos j fun hmem => hj (List.mem_cons_of_mem i hmem)]
          exact Function.update_of_ne hne _ _
        · intro r hr
          rw [hobjects r fun j hj => hr j (List.mem_cons_of_mem i hj)]
          exact Function.update_of_ne (hr i List.mem_cons_self).symm _ _

theorem exists_ofDirectory (h : ∀ i file, dir (name i) = some file →
    ∃ nso, Nso.parseFile codec file = .ok nso) : ∃ e, ofDirectory codec dir = .ok e := by
  unfold ofDirectory
  obtain ⟨e, he⟩ := exists_loadNsos ⟨fun _ => Nso.createNso [] [] [] 0, fun _ => none, none⟩
    fun i (_ : i ∈ all) => h i
  rw [he]
  exact ⟨_, rfl⟩

/-- A loaded ExeFS has the modules the directory has files for, and its npdm. -/
theorem ofDirectory_eq_ok (h : ofDirectory codec dir = .ok e) :
    (∀ i file, dir (name i) = some file →
      ∃ nso, Nso.parseFile codec file = .ok nso ∧ e.nsoAt i = some nso) ∧
    (∀ i, dir (name i) = none → e.nsos i = none) ∧ e.npdm = dir npdmPath := by
  unfold ofDirectory at h
  cases hload : loadNsos codec dir all ⟨fun _ => Nso.createNso [] [] [] 0, fun _ => none, none⟩ with
  | error x => simp [hload] at h
  | ok e₁ =>
    simp only [hload] at h
    cases h
    obtain ⟨hfiles, hnsos, -⟩ := loadNsos_eq_ok nodup_all hload
    exact ⟨fun i => hfiles i (mem_all i), fun i hi => hnsos i fun _ => hi, rfl⟩

end Load

/-! ### Exporting -/

section Export

variable {codec} {dir dir' : Directory} {is : List NsoTypeEnum} {e e₁ e' : ExeFS}

/-- Some of the objects of `e` have been written. -/
structure Saved (codec : Lz4Codec AppError) (e e₁ : ExeFS) : Prop where
  nsos : e₁.nsos = e.nsos
  npdm : e₁.npdm = e.npdm
  objects : ∀ r, e₁.objects r = e.objects r ∨
    ∃ file, Nso.writeFile codec (e.objects r) = .ok file (e₁.objects r)

theorem Saved.refl (e : ExeFS) : Saved codec e e := ⟨rfl, rfl, fun _ => Or.inl rfl⟩

/-- Writing an object again gives the same file. -/
theorem Saved.writeFile (h : Saved codec e e₁) (r : NsoRef) {file : Bytes} {nso : Nso} :
    Nso.writeFile codec (e₁.objects r) = .ok file nso ↔
      Nso.writeFile codec (e.objects r) = .ok file nso := by
  rcases h.objects r with heq | ⟨file', hfile'⟩
  · rw [heq]
  · rw [Nso.writeFile_again hfile', hfile']

theorem Saved.setObject (h : Saved codec e e₁) {r : NsoRef} {file : Bytes} {nso : Nso}
    (hw : Nso.writeFile codec (e.objects r) = .ok file nso) :
    Saved codec e (e₁.setObject r nso) where
  nsos := h.nsos
  npdm := h.npdm
  objects r' := by
    by_cases hr : r' = r
    · subst hr
      exact Or.inr ⟨file, by rw [objects_setObject_same, hw]⟩
    · rw [objects_setObject_of_ne hr]
      exact h.objects r'

/-- The loop succeeds where every object can be written. -/
theorem Saved.exists_exportNsos (hs : Saved codec e e₁) (dir : Directory)
    (h : ∀ i ∈ is, ∀ r, e.nsos i = some r →
      ∃ file nso, Nso.writeFile codec (e.objects r) = .ok file nso) :
    ∃ e' dir', exportNsos codec is (e₁, dir) = .ok () (e', dir') := by
  induction is generalizing e₁ dir with
  | nil => exact ⟨e₁, dir, rfl⟩
  | cons i is ih =>
    have htail : ∀ j ∈ is, ∀ r, e.nsos j = some r →
        ∃ file nso, Nso.writeFile codec (e.objects r) = .ok file nso := fun j hj =>
      h j (List.mem_cons_of_mem i hj)
    unfold exportNsos
    cases hr : e₁.nsos i with
    | none => exact ih hs dir htail
    | some r =>
      rw [hs.nsos] at hr
      obtain ⟨file, nso, hw⟩ := h i List.mem_cons_self r hr
      simp only [Nso.buildNso, (hs.writeFile r).mpr hw]
      exact ih (hs.setObject hw) _ htail

/-- After the loop every occupied slot has its file, and every other file is as it was. -/
theorem Saved.exportNsos_eq_ok (hs : Saved codec e e₁) (hnd : is.Nodup)
    (h : exportNsos codec is (e₁, dir) = .ok () (e', dir')) :
    Saved codec e e' ∧
    (∀ r file, Nso.writeFile codec (e.objects r) = .ok file (e₁.objects r) →
      e'.objects r = e₁.objects r) ∧
    (∀ i ∈ is, ∀ r, e.nsos i = some r → ∃ file,
      Nso.writeFile codec (e.objects r) = .ok file (e'.objects r) ∧ dir' i.name = some file) ∧
    ∀ path, (∀ i ∈ is, (e.nsos i).isSome → i.name ≠ path) → dir' path = dir path := by
  induction is generalizing e₁ dir with
  | nil =>
    cases h
    exact ⟨hs, fun _ _ _ => rfl, by simp, fun _ _ => rfl⟩
  | cons i is ih =>
    obtain ⟨hi, hnd⟩ := List.nodup_cons.mp hnd
    unfold exportNsos at h
    cases hr : e₁.nsos i with
    | none =>
      simp only [hr] at h
      rw [hs.nsos] at hr
      obtain ⟨hs', hkeep, hfiles, hother⟩ := ih hs hnd h
      refine ⟨hs', hkeep, fun j hj r hr' => ?_, fun path hp => ?_⟩
      · rcases List.mem_cons.mp hj with rfl | hj
        · rw [hr] at hr'
          cases hr'
        · exact hfiles j hj r hr'
      · exact hother path fun j hj => hp j (List.mem_cons_of_mem i hj)
    | some r =>
      simp only [hr, Nso.buildNso] at h
      rw [hs.nsos] at hr
      cases hw : Nso.writeFile codec (e₁.objects r) with
      | error x nso => simp [hw] at h
      | ok file nso =>
        simp only [hw] at h
        have hw' := (hs.writeFile r).mp hw
        obtain ⟨hs', hkeep, hfiles, hother⟩ := ih (hs.setObject hw') hnd h
        have hwritten : e'.objects r = nso := by
          rw [hkeep r file (by rw [objects_setObject_same, hw']), objects_setObject_same]
        refine ⟨hs', fun r' file' hfile' => ?_, fun j hj r' hr' => ?_, fun path hp => ?_⟩
        · by_cases hrr : r' = r
          · subst hrr
            rw [hw'] at hfile'
            cases hfile'
            exact hwritten
          · have hsame := objects_setObject_of_ne (e := e₁) hrr nso
            rw [hkeep r' file' (by rw [hsame, hfile']), hsame]
        · rcases List.mem_cons.mp hj with rfl | hj
          · rw [hr] at hr'
            cases hr'
            refine ⟨file, by rw [hwritten, hw'], ?_⟩
            rw [hother j.name fun k hk _ heq => hi (name_injective heq ▸ hk)]
            exact Function.update_self _ _ _
          · exact hfiles j hj r' hr'
        · rw [hother path fun j hj => hp j (List.mem_cons_of_mem i hj)]
          exact Function.update_of_ne (hp i List.mem_cons_self (by rw [hr]; rfl)).symm _ _

/-- What an export does to the directory: the files of the occupied slots and the npdm are written,
and all other files stay. -/
theorem exportAsDir_eq_ok (h : exportAsDir codec (e, dir) = .ok () (e', dir')) :
    (∀ i r, e.nsos i = some r → ∃ file,
      Nso.writeFile codec (e.objects r) = .ok file (e'.objects r) ∧ dir' i.name = some file) ∧
    (∀ i, e.nsos i = none → dir' (name i) = dir (name i)) ∧
    dir' npdmPath = e.npdm.or (dir npdmPath) := by
  unfold exportAsDir at h
  cases hloop : exportNsos codec all (e, dir) with
  | error x s => simp [hloop] at h
  | ok _ s =>
    obtain ⟨e₁, dir₁⟩ := s
    obtain ⟨hs, -, hfiles, hother⟩ := (Saved.refl e).exportNsos_eq_ok nodup_all hloop
    have hname : ∀ i, e.nsos i = none → dir₁ (name i) = dir (name i) := fun i hi =>
      hother i.name fun j _ hj heq => by
        rw [name_injective heq, hi] at hj
        cases hj
    have hnpdm : dir₁ npdmPath = dir npdmPath := hother npdmPath fun j _ _ => name_ne_npdmPath j
    simp only [hloop, hs.npdm] at h
    cases hn : e.npdm with
    | none =>
      simp only [hn] at h
      cases h
      exact ⟨fun i => hfiles i (mem_all i), hname, hnpdm⟩
    | some npdm =>
      simp only [hn] at h
      cases h
      have hkeep : ∀ i : NsoTypeEnum, Function.update dir₁ npdmPath (some npdm) i.name =
          dir₁ i.name := fun i => Function.update_of_ne (name_ne_npdmPath i) _ _
      refine ⟨fun i r hr => ?_, fun i hi => by rw [hkeep, hname i hi], Function.update_self _ _ _⟩
      rw [hkeep]
      exact hfiles i (mem_all i) r hr

theorem exists_exportAsDir (dir : Directory) (h : ∀ i r, e.nsos i = some r →
    ∃ file nso, Nso.writeFile codec (e.objects r) = .ok file nso) :
    ∃ e' dir', exportAsDir codec (e, dir) = .ok () (e', dir') := by
  obtain ⟨e₁, dir₁, hloop⟩ := (Saved.refl e).exists_exportNsos dir
    fun i (_ : i ∈ all) => h i
  unfold exportAsDir
  rw [hloop]
  dsimp only
  cases e₁.npdm with
  | none => exact ⟨_, _, rfl⟩
  | some npdm => exact ⟨_, _, rfl⟩

end Export

end ExeFS

/-! ### Files of modules -/

namespace Nso

variable {codec : Lz4Codec AppError} {nso : Nso} {comp : NsoSegmentType → Bytes}

/-- Looking for the module header gives one, or the exception that is caught. -/
def HeaderReadable (nso : Nso) : Prop :=
  (∃ m, ModHeader.ofNso nso = .ok m) ∨ ∃ message, ModHeader.ofNso nso = .error (.app (.nso message))

/-- The segments can be stored as `comp`, and what the file then holds at the 32-bit offset of each
is unpacked to its buffer. -/
structure Recoverable (codec : Lz4Codec AppError) (nso : Nso) (comp : NsoSegmentType → Bytes) :
    Prop where
  stored : ∀ t, stored codec (nso.segments t) = .ok (comp t)
  unpack : ∀ t, unpack codec (nso.segments t) (slice (nso.storedFile comp)
    (fileOffsets nso.firstOffset comp t).toNat (comp t).length) = .ok (nso.segments t).rawData
  header : nso.HeaderReadable

/-- A file below `2 ^ 32` bytes has its segments where it says. -/
theorem Storable.recoverable (hs : nso.Storable) (hcodec : codec.Lawful)
    (hcomp : ∀ t, Nso.stored codec (nso.segments t) = .ok (comp t))
    (hlen : (nso.storedFile comp).length < 2 ^ 32) (hheader : nso.HeaderReadable) :
    nso.Recoverable codec comp := by
  refine ⟨hcomp, fun t => ?_, hheader⟩
  rw [slice_storedFile hs.buildId hlen]
  exact unpack_stored hcodec (hs.decompressedSize t) (hs.rawData t) (hs.sized t) (hcomp t)

theorem Storable.exists_recoverable_iff (hs : nso.Storable) (hcodec : codec.Lawful)
    (hlen : ∀ comp, (∀ t, Nso.stored codec (nso.segments t) = .ok (comp t)) →
      (nso.storedFile comp).length < 2 ^ 32) :
    (∃ comp, nso.Recoverable codec comp) ↔
      (∃ comp : NsoSegmentType → Bytes, ∀ t,
        Nso.stored codec (nso.segments t) = .ok (comp t)) ∧ nso.HeaderReadable := by
  constructor
  · rintro ⟨comp, h⟩
    exact ⟨⟨comp, h.stored⟩, h.header⟩
  · rintro ⟨⟨comp, hcomp⟩, hheader⟩
    exact ⟨comp, hs.recoverable hcodec hcomp (hlen comp hcomp) hheader⟩

section Parse

variable (h : nso.Recoverable codec comp) (hcodec : codec.Lawful) (hs : nso.Storable)
include h hcodec hs

theorem Recoverable.parseSegments : ∃ br, parseSegments codec (.ofBytes (nso.storedFile comp)) =
    .ok ({ nso.written comp with modSection := none }, br) :=
  (hs.parseSegments_storedFile_iff hcodec h.stored).mpr ⟨_, h.unpack, rfl⟩

/-- A recoverable module is read from its file as it was left by writing it, with its header. -/
theorem Recoverable.parseFile_of_ok {m : ModHeader} (hm : ModHeader.ofNso nso = .ok m) :
    parseFile codec (nso.storedFile comp) =
      .ok { nso.written comp with modSection := some m } := by
  obtain ⟨br, hbr⟩ := h.parseSegments hcodec hs
  have hsame : SameImage { nso.written comp with modSection := none } nso :=
    ⟨fun _ => rfl, fun _ => rfl, fun _ => rfl⟩
  exact (parseFile_of_modHeader hbr (hsame.modHeader.trans hm)).trans rfl

theorem Recoverable.parseFile_of_error {message : String}
    (hm : ModHeader.ofNso nso = .error (.app (.nso message))) :
    parseFile codec (nso.storedFile comp) = .ok { nso.written comp with modSection := none } := by
  obtain ⟨br, hbr⟩ := h.parseSegments hcodec hs
  have hsame : SameImage { nso.written comp with modSection := none } nso :=
    ⟨fun _ => rfl, fun _ => rfl, fun _ => rfl⟩
  exact (Nso.parseFile_of_error hbr (hsame.modHeader.trans hm)).trans rfl

theorem Recoverable.exists_parseFile : ∃ m, parseFile codec (nso.storedFile comp) =
    .ok { nso.written comp with modSection := m } := by
  rcases h.header with ⟨m, hm⟩ | ⟨message, hm⟩
  · exact ⟨some m, h.parseFile_of_ok hcodec hs hm⟩
  · exact ⟨none, h.parseFile_of_error hcodec hs hm⟩

end Parse

/-- If the file of a module is read as the module, the module is recoverable. -/
theorem recoverable_of_parseFile (hcodec : codec.Lawful) (hs : nso.Storable)
    (hcomp : ∀ t, Nso.stored codec (nso.segments t) = .ok (comp t)) {nso₂ : Nso}
    (hparse : parseFile codec (nso.storedFile comp) = .ok nso₂) (hsame : nso.SameContent nso₂) :
    nso.Recoverable codec comp := by
  obtain ⟨nso₀, br, hbr, hheader⟩ := parseFile_eq_ok hparse
  obtain ⟨raw, hraw, hnso₀⟩ := (hs.parseSegments_storedFile_iff hcodec hcomp).mp ⟨br, hbr⟩
  have himage : nso₀.SameImage nso₂ := by
    rcases hheader with ⟨m, -, rfl⟩ | ⟨message, -, rfl⟩ <;>
      exact ⟨fun _ => rfl, fun _ => rfl, fun _ => rfl⟩
  have hmod : ModHeader.ofNso nso = ModHeader.ofNso nso₀ :=
    (himage.trans ⟨hsame.address, hsame.decompressedSize, hsame.rawData⟩).modHeader.symm
  refine ⟨hcomp, fun t => ?_, ?_⟩
  · rw [hraw t, ← hsame.rawData, ← himage.rawData, hnso₀]
  · rcases hheader with ⟨m, hm, -⟩ | ⟨message, hm, -⟩
    · exact Or.inl ⟨m, hmod.trans hm⟩
    · exact Or.inr ⟨message, hmod.trans hm⟩

end Nso

/-! ### The round trip -/

namespace ExeFS

open NsoTypeEnum

variable {codec : Lz4Codec AppError} {e e' e₂ : ExeFS} {dir dir' : Directory}

/-- `e₂` has the modules and the npdm of `e`, which has become `e'` by being exported. -/
structure Reloaded (e e' e₂ : ExeFS) : Prop where
  slots : ∀ i, (e₂.nsos i).isSome = (e.nsos i).isSome
  content : ∀ i r, e.nsos i = some r → ∃ nso₂, e₂.nsoAt i = some nso₂ ∧
    (e.objects r).SameContent nso₂ ∧
    nso₂ = { e'.objects r with modSection := nso₂.modSection }
  npdm : e₂.npdm = e.npdm
  address : ∀ i, e₂.getNsoAddress i = e.getNsoAddress i

/-- Exporting `e` to the directory and loading the directory gives `e` again. -/
def RoundTrips (codec : Lz4Codec AppError) (e : ExeFS) (dir : Directory) : Prop :=
  ∃ e' dir' e₂, exportAsDir codec (e, dir) = .ok () (e', dir') ∧
    ofDirectory codec dir' = .ok e₂ ∧ e.Reloaded e' e₂

/-- The directory has no file where `e` has no module or no npdm, and every module is
recoverable. -/
structure Exportable (codec : Lz4Codec AppError) (e : ExeFS) (dir : Directory) : Prop where
  slots : ∀ i, e.nsos i = none → dir (name i) = none
  npdm : e.npdm = none → dir npdmPath = none
  nsos : ∀ i r, e.nsos i = some r → ∃ comp, (e.objects r).Recoverable codec comp

/-- Modules with the same content are placed alike. -/
theorem getNsoAddress_of_sameContent (hslots : ∀ i, (e₂.nsos i).isSome = (e.nsos i).isSome)
    (hcontent : ∀ i r, e.nsos i = some r → ∃ nso₂, e₂.nsoAt i = some nso₂ ∧
      (e.objects r).SameContent nso₂) (i : NsoTypeEnum) :
    e₂.getNsoAddress i = e.getNsoAddress i := by
  have hsize : e₂.slotSize = e.slotSize := by
    funext j
    cases hj : e.nsos j with
    | none =>
      have hnone : e₂.nsos j = none := by
        rw [← Option.not_isSome_iff_eq_none, hslots j, hj]
        simp
      simp only [slotSize, nsoAt, hj, hnone, Option.map_none]
    | some r =>
      obtain ⟨nso₂, hnso₂, hsame⟩ := hcontent j r hj
      have hnso : e.nsoAt j = some (e.objects r) := nsoAt_eq_some.mpr ⟨r, hj, rfl⟩
      rw [slotSize_of_nsoAt hnso₂, slotSize_of_nsoAt hnso]
      simp only [Nso.endAddress, Nso.rwdataSegment, hsame.address, hsame.decompressedSize,
        hsame.bssOrAlign]
  rw [getNsoAddress, getNsoAddress, sizeBefore, sizeBefore, hsize]

theorem Exportable.exists_exportAsDir (h : e.Exportable codec dir)
    (hs : ∀ i r, e.nsos i = some r → (e.objects r).Storable) :
    ∃ e' dir', exportAsDir codec (e, dir) = .ok () (e', dir') := by
  apply ExeFS.exists_exportAsDir
  intro i r hr
  obtain ⟨comp, hcomp⟩ := h.nsos i r hr
  exact ⟨_, _, (Nso.writeFile_eq_ok (hs i r hr).buildId).mpr ⟨comp, hcomp.stored, rfl, rfl⟩⟩

theorem Exportable.none_of_exportAsDir (h : e.Exportable codec dir)
    (hexport : exportAsDir codec (e, dir) = .ok () (e', dir')) {i : NsoTypeEnum}
    (hi : e.nsos i = none) : dir' i.name = none := by
  rw [(exportAsDir_eq_ok hexport).2.1 i hi, h.slots i hi]

section RoundTrip

variable (hcodec : codec.Lawful) (hs : ∀ i r, e.nsos i = some r → (e.objects r).Storable)
include hcodec hs

/-- The file of an occupied slot is read as the module that the export has left in the slot. -/
theorem Exportable.parseFile_of_exportAsDir (h : e.Exportable codec dir)
    (hexport : exportAsDir codec (e, dir) = .ok () (e', dir')) {i : NsoTypeEnum} {r : NsoRef}
    (hr : e.nsos i = some r) :
    ∃ file m, dir' i.name = some file ∧
      Nso.parseFile codec file = .ok { e'.objects r with modSection := m } ∧
      (e.objects r).SameContent { e'.objects r with modSection := m } := by
  obtain ⟨comp, hcomp⟩ := h.nsos i r hr
  obtain ⟨file, hw, hfile⟩ := (exportAsDir_eq_ok hexport).1 i r hr
  obtain ⟨m, hm⟩ := hcomp.exists_parseFile hcodec (hs i r hr)
  have hw' := (Nso.writeFile_eq_ok (hs i r hr).buildId).mpr ⟨comp, hcomp.stored, rfl, rfl⟩
  rw [hw] at hw'
  obtain ⟨hfileEq, hnsoEq⟩ := EStateM.Result.ok.inj hw'
  rw [hnsoEq]
  exact ⟨file, m, hfile, by rw [hfileEq, hm], Nso.sameContent_written _ comp m⟩

theorem Exportable.exists_ofDirectory (h : e.Exportable codec dir)
    (hexport : exportAsDir codec (e, dir) = .ok () (e', dir')) :
    ∃ e₂, ofDirectory codec dir' = .ok e₂ := by
  apply ExeFS.exists_ofDirectory
  intro i file hfile
  cases hr : e.nsos i with
  | none =>
    rw [h.none_of_exportAsDir hexport hr] at hfile
    cases hfile
  | some r =>
    obtain ⟨file', m, hfile', hm, -⟩ := h.parseFile_of_exportAsDir hcodec hs hexport hr
    rw [hfile] at hfile'
    cases hfile'
    exact ⟨_, hm⟩

theorem Exportable.roundTrips (h : e.Exportable codec dir) : e.RoundTrips codec dir := by
  obtain ⟨e', dir', hexport⟩ := h.exists_exportAsDir hs
  obtain ⟨e₂, he₂⟩ := h.exists_ofDirectory hcodec hs hexport
  obtain ⟨hload, hload_none, hload_npdm⟩ := ofDirectory_eq_ok he₂
  have hcontent : ∀ i r, e.nsos i = some r → ∃ m,
      e₂.nsoAt i = some { e'.objects r with modSection := m } ∧
        (e.objects r).SameContent { e'.objects r with modSection := m } := by
    intro i r hr
    obtain ⟨file, m, hfile, hm, hsame⟩ := h.parseFile_of_exportAsDir hcodec hs hexport hr
    obtain ⟨nso, hnso, hat⟩ := hload i file hfile
    rw [hm] at hnso
    cases hnso
    exact ⟨m, hat, hsame⟩
  have hslots : ∀ i, (e₂.nsos i).isSome = (e.nsos i).isSome := by
    intro i
    cases hr : e.nsos i with
    | none => rw [hload_none i (h.none_of_exportAsDir hexport hr)]
    | some r =>
      obtain ⟨m, hat, -⟩ := hcontent i r hr
      obtain ⟨r₂, hr₂, -⟩ := nsoAt_eq_some.mp hat
      rw [hr₂]
      rfl
  refine ⟨e', dir', e₂, hexport, he₂, hslots, ?_, ?_, ?_⟩
  · intro i r hr
    obtain ⟨m, hat, hsame⟩ := hcontent i r hr
    exact ⟨_, hat, hsame, rfl⟩
  · rw [hload_npdm, (exportAsDir_eq_ok hexport).2.2]
    cases hn : e.npdm with
    | none => exact h.npdm hn
    | some npdm => rfl
  · refine getNsoAddress_of_sameContent hslots fun i r hr => ?_
    obtain ⟨m, hat, hsame⟩ := hcontent i r hr
    exact ⟨_, hat, hsame⟩

theorem RoundTrips.exportable (h : e.RoundTrips codec dir) : e.Exportable codec dir := by
  obtain ⟨e', dir', e₂, hexport, he₂, hreload⟩ := h
  obtain ⟨hfiles, hempty, hnpdm⟩ := exportAsDir_eq_ok hexport
  obtain ⟨hload, -, hload_npdm⟩ := ofDirectory_eq_ok he₂
  constructor
  · intro i hi
    cases hfile : dir (name i) with
    | none => rfl
    | some file =>
      -- a file that was there before the export becomes a module
      obtain ⟨nso, -, hat⟩ := hload i file (by rw [hempty i hi, hfile])
      obtain ⟨r, hr, -⟩ := nsoAt_eq_some.mp hat
      have hslot := hreload.slots i
      rw [hr, hi] at hslot
      cases hslot
  · intro hn
    have hsame := hload_npdm.symm.trans hreload.npdm
    rw [hnpdm, hn] at hsame
    exact hsame
  · intro i r hr
    obtain ⟨file, hw, hfile⟩ := hfiles i r hr
    obtain ⟨comp, hcomp, -, rfl⟩ := (Nso.writeFile_eq_ok (hs i r hr).buildId).mp hw
    obtain ⟨nso₂, hat, hsame, -⟩ := hreload.content i r hr
    obtain ⟨nso, hparse, hat'⟩ := hload i _ hfile
    rw [hat] at hat'
    cases hat'
    exact ⟨comp, Nso.recoverable_of_parseFile hcodec (hs i r hr) hcomp hparse hsame⟩

/-- An ExeFS comes back from a directory exactly when no old file is in the way and every module is
found in its file. -/
theorem roundTrips_iff_exportable : e.RoundTrips codec dir ↔ e.Exportable codec dir :=
  ⟨fun h => h.exportable hcodec hs, fun h => h.roundTrips hcodec hs⟩

/-- Where no file has `2 ^ 32` bytes, the modules are found in their files. -/
theorem roundTrips_iff_of_small
    (hsmall : ∀ i r, e.nsos i = some r → ∀ comp,
      (∀ t, Nso.stored codec ((e.objects r).segments t) = .ok (comp t)) →
        ((e.objects r).storedFile comp).length < 2 ^ 32) :
    e.RoundTrips codec dir ↔
      (∀ i, e.nsos i = none → dir (name i) = none) ∧ (e.npdm = none → dir npdmPath = none) ∧
        ∀ i r, e.nsos i = some r →
          (∃ comp : NsoSegmentType → Bytes, ∀ t,
            Nso.stored codec ((e.objects r).segments t) = .ok (comp t)) ∧
              (e.objects r).HeaderReadable := by
  have hrec : ∀ i r, e.nsos i = some r → ((∃ comp, (e.objects r).Recoverable codec comp) ↔
      (∃ comp : NsoSegmentType → Bytes, ∀ t,
        Nso.stored codec ((e.objects r).segments t) = .ok (comp t)) ∧
          (e.objects r).HeaderReadable) := fun i r hr =>
    (hs i r hr).exists_recoverable_iff hcodec (hsmall i r hr)
  constructor
  · intro h
    obtain ⟨hslots, hnpdm, hnsos⟩ := h.exportable hcodec hs
    exact ⟨hslots, hnpdm, fun i r hr => (hrec i r hr).mp (hnsos i r hr)⟩
  · rintro ⟨hslots, hnpdm, hnsos⟩
    exact Exportable.roundTrips hcodec hs
      ⟨hslots, hnpdm, fun i r hr => (hrec i r hr).mpr (hnsos i r hr)⟩

end RoundTrip

/-! ### A game with a main module -/

/-- An ExeFS with three bytes in its main module. -/
def bytesExeFS : ExeFS := ofMain (Nso.createNso [1] [2] [3] 0)

/-- The stored segments of the module. -/
def bytesComp : NsoSegmentType → Bytes := Nso.ofSegments [0x10, 1] [0x10, 2] [0x10, 3]

theorem storable_bytesNso : (Nso.createNso [1] [2] [3] 0).Storable :=
  Nso.storable_createNso 0 (by decide) (by decide) (by decide)

theorem storable_bytesExeFS (i : NsoTypeEnum) (r : NsoRef) (_ : bytesExeFS.nsos i = some r) :
    (bytesExeFS.objects r).Storable := storable_bytesNso

theorem recoverable_bytesExeFS (r : NsoRef) :
    (bytesExeFS.objects r).Recoverable Lz4Codec.literals bytesComp := by
  have hstored : ∀ t, Nso.stored Lz4Codec.literals ((Nso.createNso [1] [2] [3] 0).segments t) =
      .ok (bytesComp t) := by
    intro t
    cases t <;> decide
  have hlen : ((Nso.createNso [1] [2] [3] 0).storedFile bytesComp).length < 2 ^ 32 := by
    rw [Nso.length_storedFile storable_bytesNso.buildId]
    decide
  have hbase : (Nso.createNso [1] [2] [3] 0).getModAddr =
      .error (.app (.nso "Invalid Address")) := by decide
  have h : (Nso.createNso [1] [2] [3] 0).Recoverable Lz4Codec.literals bytesComp := by
    refine storable_bytesNso.recoverable Lz4Codec.lawful_literals hstored hlen
      (Or.inr ⟨"Invalid Address", ?_⟩)
    rw [ModHeader.ofNso, hbase]
    rfl
  exact h

theorem roundTrips_bytesExeFS : bytesExeFS.RoundTrips Lz4Codec.literals fun _ => none :=
  (roundTrips_iff_exportable Lz4Codec.lawful_literals storable_bytesExeFS).mpr
    ⟨fun _ _ => rfl, fun _ => rfl, fun _ r _ => ⟨bytesComp, recoverable_bytesExeFS r⟩⟩

/-- A `subsdk0` that was in the directory before comes back with the game. -/
theorem not_roundTrips_bytesExeFS_subsdk0 :
    (∀ i r, bytesExeFS.nsos i = some r → (bytesExeFS.objects r).Storable) ∧
      ¬ bytesExeFS.RoundTrips Lz4Codec.literals (Function.update (fun _ => none) "subsdk0"
        (some ((Nso.createNso [1] [2] [3] 0).storedFile bytesComp))) := by
  refine ⟨storable_bytesExeFS, fun h => ?_⟩
  have hnone := (h.exportable Lz4Codec.lawful_literals storable_bytesExeFS).slots subsdk0 rfl
  rw [name, Function.update_self] at hnone
  cases hnone

end ExeFS
end Sp2Module
