import Sp2Module.ExeFSDirectory
import Sp2Module.NsoBuffers

/-!
# The flags of a written file

How a segment is stored is said twice: by the segment, which can be assigned to, and by the flags of
the NSO, which stay as they were. Writing goes by the segments and reading by the flags. `flagged`
is the NSO whose segments say what its flags say; no assignment changes it.
-/

namespace Sp2Module.Nso

open BinaryReader NsoSegmentType

def setCompressed (nso : Nso) (t : NsoSegmentType) (compressed : Bool) : Nso :=
  nso.setSegment t { nso.segments t with compressed := compressed }

/-- What is done to an NSO before it is written. -/
inductive Touch where
  | setCompressed (t : NsoSegmentType) (compressed : Bool)
  | writeNso (addr : UInt32) (data : Bytes)

def Touch.after (nso : Nso) : Touch → Nso
  | .setCompressed t compressed => nso.setCompressed t compressed
  | .writeNso addr data => Edit.after nso (.writeNso addr data)

/-- The last value assigned to `Compressed` of segment `t`. -/
def assigned (t : NsoSegmentType) : List Touch → Option Bool
  | [] => none
  | .setCompressed u compressed :: touches =>
    (assigned t touches).or (if u = t then some compressed else none)
  | .writeNso _ _ :: touches => assigned t touches

/-- The NSOs that assignments and writes start from. -/
inductive Origin (codec : Lz4Codec AppError) : Nso → Prop where
  | parseFile {stream : Bytes} {nso : Nso} (h : parseFile codec stream = .ok nso) :
      Origin codec nso
  | createNso {textData rodataData rwdataData : Bytes} (bssSize : UInt32)
      (ht : textData.length ≤ maxArrayLength) (hro : rodataData.length ≤ maxArrayLength)
      (hrw : rwdataData.length ≤ maxArrayLength) :
      Origin codec (createNso textData rodataData rwdataData bssSize)

/-- The file says of each segment how it is stored, and the buffers are read back from it. -/
structure FlagDescribes (codec : Lz4Codec AppError) (nso : Nso) (file : Bytes) : Prop where
  flag : ∀ t, compressedBit (flagWord file) t = (nso.segments t).compressed
  rawData : ∃ nso₂, parseFile codec file = .ok nso₂ ∧
    ∀ t, (nso₂.segments t).rawData = (nso.segments t).rawData

/-- The segments say what the flags say. -/
def flagged (nso : Nso) : Nso :=
  { nso with segments := fun t =>
      { nso.segments t with compressed := compressedBit nso.flag t } }

section Touches

variable {codec : Lz4Codec AppError} {nso nso' : Nso} {file : Bytes} {t : NsoSegmentType}

theorem Origin.storable (hc : codec.Lawful) (h : Origin codec nso) : nso.Storable := by
  cases h with
  | parseFile h => exact storable_of_parseFile hc h
  | createNso bssSize ht hro hrw => exact storable_createNso bssSize ht hro hrw

theorem flagged_eq_self (h : ∀ t, (nso.segments t).compressed = compressedBit nso.flag t) :
    nso.flagged = nso := by
  refine segments_ext rfl rfl (fun t => ?_) rfl rfl rfl
  simp only [flagged, ← h t]

theorem flagged_setCompressed (nso : Nso) (t : NsoSegmentType) (compressed : Bool) :
    (nso.setCompressed t compressed).flagged = nso.flagged := by
  refine segments_ext rfl rfl (fun u => ?_) rfl rfl rfl
  simp only [flagged, setCompressed, segments_setSegment, flag_setSegment]
  split_ifs with hu
  · rw [hu]
  · rfl

/-- Writes do not look at how a segment is stored. -/
theorem locate_flagged (nso : Nso) (addr : UInt32) (n : ℕ) :
    nso.flagged.locate addr n = nso.locate addr n :=
  @locate_congr nso.flagged nso rfl addr n

theorem flagged_overlay (nso : Nso) (t : NsoSegmentType) (off : ℕ) (data : Bytes) :
    (nso.overlay t off data).flagged = nso.flagged.overlay t off data := by
  refine segments_ext rfl rfl (fun u => ?_) rfl rfl rfl
  simp only [flagged, overlay, segments_setSegment, flag_setSegment]
  split_ifs with hu
  · rw [hu]
    rfl
  · rfl

theorem after_writeNso (nso : Nso) (addr : UInt32) (data : Bytes) :
    Edit.after nso (.writeNso addr data) = match nso.locate addr data.length with
      | .error _ => nso
      | .ok (t, off) => nso.overlay t off data := by
  unfold Edit.after Edit.run
  dsimp only
  rw [writeNso_eq]
  cases nso.locate addr data.length <;> rfl

/-- Assignments and writes keep storable what the flags say. -/
theorem storable_flagged_after (h : nso.flagged.Storable) (touch : Touch) :
    (touch.after nso).flagged.Storable := by
  cases touch with
  | setCompressed t compressed =>
    rw [Touch.after, flagged_setCompressed]
    exact h
  | writeNso addr data =>
    rw [Touch.after, after_writeNso]
    cases hloc : nso.locate addr data.length with
    | error x => exact h
    | ok place =>
      obtain ⟨t, off⟩ := place
      have hw : Nso.writeNso addr data nso.flagged = .ok () (nso.flagged.overlay t off data) :=
        writeNso_of_locate (by rw [locate_flagged, hloc])
      dsimp only
      rw [flagged_overlay]
      exact h.writeNso hw

theorem flag_after (nso : Nso) (touch : Touch) : (touch.after nso).flag = nso.flag := by
  cases touch with
  | setCompressed t compressed => rfl
  | writeNso addr data =>
    rw [Touch.after, after_writeNso]
    cases nso.locate addr data.length <;> rfl

theorem compressed_after (nso : Nso) (touch : Touch) :
    ((touch.after nso).segments t).compressed =
      (assigned t [touch]).getD (nso.segments t).compressed := by
  cases touch with
  | setCompressed u compressed =>
    simp only [Touch.after, setCompressed, segments_setSegment, assigned, Option.none_or]
    by_cases hu : t = u
    · rw [if_pos hu, if_pos hu.symm, Option.getD_some]
    · rw [if_neg hu, if_neg (Ne.symm hu), Option.getD_none]
  | writeNso addr data =>
    rw [Touch.after, after_writeNso]
    cases nso.locate addr data.length with
    | error x => rfl
    | ok place =>
      obtain ⟨u, off⟩ := place
      simp only [overlay, segments_setSegment, assigned, Option.getD_none]
      split_ifs with hu
      · rw [hu]
        rfl
      · rfl

theorem assigned_cons (t : NsoSegmentType) (touch : Touch) (touches : List Touch) :
    assigned t (touch :: touches) = (assigned t touches).or (assigned t [touch]) := by
  cases touch with
  | setCompressed u compressed => rfl
  | writeNso addr data => exact (Option.or_none).symm

/-- What a run of assignments and writes leaves: the flags, what can be stored by them, and for each
segment the last value assigned. -/
theorem foldl_after (h : nso.flagged.Storable) (touches : List Touch) :
    (touches.foldl Touch.after nso).flagged.Storable ∧
      (touches.foldl Touch.after nso).flag = nso.flag ∧
      ∀ t, ((touches.foldl Touch.after nso).segments t).compressed =
        (assigned t touches).getD (nso.segments t).compressed := by
  induction touches generalizing nso with
  | nil => exact ⟨h, rfl, fun t => rfl⟩
  | cons touch touches ih =>
    obtain ⟨hs, hflag, hcompressed⟩ := ih (storable_flagged_after h touch)
    refine ⟨hs, hflag.trans (flag_after nso touch), fun t => ?_⟩
    rw [List.foldl_cons, hcompressed t, compressed_after, assigned_cons t touch touches]
    cases assigned t touches <;> rfl

/-! ### The written file -/

theorem flagWord_storedFile (nso : Nso) (comp : NsoSegmentType → Bytes) :
    flagWord (nso.storedFile comp) = nso.flag := by
  have hslice : slice (nso.storedFile comp) 0xC 4 = uintBytes nso.flag := by
    rw [storedFile, header]
    simp only [List.append_assoc]
    rw [← List.append_assoc (asciiGetBytes headerMagic)]
    exact slice_middle (by rw [List.length_append, length_headerMagic, length_ulongBytes])
      (length_uintBytes _)
  rw [flagWord, wordAt, hslice, uintOfBytes_uintBytes]

/-- Buffers are found again in a written file exactly when the NSO is recoverable. -/
theorem exists_parseFile_iff (hc : codec.Lawful) (hs : nso.Storable)
    {comp : NsoSegmentType → Bytes} (hcomp : ∀ t, stored codec (nso.segments t) = .ok (comp t)) :
    (∃ nso₂, parseFile codec (nso.storedFile comp) = .ok nso₂ ∧
      ∀ t, (nso₂.segments t).rawData = (nso.segments t).rawData) ↔ nso.Recoverable codec comp := by
  constructor
  · rintro ⟨nso₂, hparse, hraw⟩
    refine recoverable_of_parseFile hc hs hcomp hparse ?_
    obtain ⟨nso₀, br, hbr, hmod⟩ := parseFile_eq_ok hparse
    obtain ⟨raw, -, rfl⟩ := (hs.parseSegments_storedFile_iff hc hcomp).mp ⟨br, hbr⟩
    have heq : raw = fun t => (nso.segments t).rawData := by
      funext t
      rw [← hraw t]
      obtain ⟨m, -, rfl⟩ | ⟨message, -, rfl⟩ := hmod <;> rfl
    subst heq
    obtain ⟨m, -, rfl⟩ | ⟨message, -, rfl⟩ := hmod
    · exact sameContent_written nso comp (some m)
    · exact sameContent_written nso comp none
  · intro h
    obtain ⟨m, hparse⟩ := h.exists_parseFile hc hs
    exact ⟨_, hparse, fun t => rfl⟩

/-- The segments have the flags of the module exactly when every segment was last assigned what its
flag says. -/
theorem compressed_iff_assigned (hc : codec.Lawful) {nso₀ : Nso} (h : Origin codec nso₀)
    (touches : List Touch) :
    (∀ t, ((touches.foldl Touch.after nso₀).segments t).compressed =
      compressedBit (touches.foldl Touch.after nso₀).flag t) ↔
        ∀ t compressed, assigned t touches = some compressed →
          compressed = compressedBit nso₀.flag t := by
  have hs₀ := h.storable hc
  obtain ⟨-, hflag, hcompressed⟩ :=
    @foldl_after nso₀ (by rw [flagged_eq_self hs₀.compressed]; exact hs₀) touches
  refine forall_congr' fun t => ?_
  rw [hcompressed t, hflag, hs₀.compressed t]
  cases assigned t touches with
  | none => simp
  | some c => simp

theorem storable_flagged (hc : codec.Lawful) {nso₀ : Nso} (h : Origin codec nso₀)
    (touches : List Touch) : (flagged (touches.foldl Touch.after nso₀)).Storable := by
  have hs₀ := h.storable hc
  exact (@foldl_after nso₀ (by rw [flagged_eq_self hs₀.compressed]; exact hs₀) touches).1

theorem flagDescribes_iff_recoverable (hc : codec.Lawful) (hs : (flagged nso).Storable)
    (hw : writeFile codec nso = .ok file nso') : FlagDescribes codec nso file ↔
      (∀ t, (nso.segments t).compressed = compressedBit nso.flag t) ∧
        ∃ comp, nso.Recoverable codec comp := by
  obtain ⟨comp, hcomp, -, rfl⟩ :=
    (writeFile_eq_ok (show nso.buildId.length = 0x20 from hs.buildId)).mp hw
  constructor
  · intro hd
    have hmatch : ∀ t, (nso.segments t).compressed = compressedBit nso.flag t := fun t => by
      rw [← hd.flag t, flagWord_storedFile]
    rw [flagged_eq_self hmatch] at hs
    exact ⟨hmatch, comp, (exists_parseFile_iff hc hs hcomp).mp hd.rawData⟩
  · rintro ⟨hmatch, comp', hrec⟩
    have heq : comp' = comp := funext fun t => Except.ok.inj ((hrec.stored t).symm.trans (hcomp t))
    subst heq
    rw [flagged_eq_self hmatch] at hs
    refine ⟨fun t => ?_, (exists_parseFile_iff hc hs hcomp).mpr hrec⟩
    rw [flagWord_storedFile, hmatch t]

/-- The flags of a written file are right and its buffers are found again exactly when every segment
was last assigned what its flag says, the file holds each stored segment at its offset, and its
module header can be read. -/
theorem flagDescribes_iff (hc : codec.Lawful) {nso₀ : Nso} (h : Origin codec nso₀)
    (touches : List Touch) (hw : writeFile codec (touches.foldl Touch.after nso₀) = .ok file nso') :
    FlagDescribes codec (touches.foldl Touch.after nso₀) file ↔
      (∀ t compressed, assigned t touches = some compressed →
        compressed = compressedBit nso₀.flag t) ∧
      ∃ comp, (touches.foldl Touch.after nso₀).Recoverable codec comp := by
  rw [← compressed_iff_assigned hc h touches]
  exact flagDescribes_iff_recoverable hc (storable_flagged hc h touches) hw

/-- In a file below `2 ^ 32` bytes the stored segments are at their offsets. -/
theorem flagDescribes_iff_of_small (hc : codec.Lawful) {nso₀ : Nso} (h : Origin codec nso₀)
    (touches : List Touch) (hw : writeFile codec (touches.foldl Touch.after nso₀) = .ok file nso')
    (hlen : file.length < 2 ^ 32) :
    FlagDescribes codec (touches.foldl Touch.after nso₀) file ↔
      (∀ t compressed, assigned t touches = some compressed →
        compressed = compressedBit nso₀.flag t) ∧
      (touches.foldl Touch.after nso₀).HeaderReadable := by
  have hs := storable_flagged hc h touches
  rw [← compressed_iff_assigned hc h touches, flagDescribes_iff_recoverable hc hs hw]
  refine and_congr_right fun hmatch => ⟨fun ⟨comp, hrec⟩ => hrec.header, fun hheader => ?_⟩
  rw [flagged_eq_self hmatch] at hs
  obtain ⟨comp, hcomp, -, rfl⟩ := (writeFile_eq_ok hs.buildId).mp hw
  exact ⟨comp, hs.recoverable hc hcomp hlen hheader⟩

end Touches

/-- Text that is set to be stored as it is and back again. -/
theorem flagDescribes_toggled : ∃ file nso',
    writeFile Lz4Codec.literals ([.setCompressed text false, .setCompressed text true].foldl
      Touch.after (createNso [1] [2] [3] 0)) = .ok file nso' ∧
    FlagDescribes Lz4Codec.literals ([.setCompressed text false, .setCompressed text true].foldl
      Touch.after (createNso [1] [2] [3] 0)) file := by
  have horigin : Origin Lz4Codec.literals (createNso [1] [2] [3] 0) :=
    .createNso 0 (by decide) (by decide) (by decide)
  have hback : [.setCompressed text false, .setCompressed text true].foldl Touch.after
      (createNso [1] [2] [3] 0) = createNso [1] [2] [3] 0 := by
    refine segments_ext rfl rfl (fun t => ?_) rfl rfl rfl
    cases t <;> rfl
  have hrec : (createNso [1] [2] [3] 0).Recoverable Lz4Codec.literals ExeFS.bytesComp :=
    ExeFS.recoverable_bytesExeFS 0
  have hw : writeFile Lz4Codec.literals ([.setCompressed text false,
      .setCompressed text true].foldl Touch.after (createNso [1] [2] [3] 0)) = .ok _ _ :=
    writeFile_eq_ok_iff.mpr ⟨ExeFS.bytesComp, by rw [hback]; exact hrec.stored, rfl, rfl⟩
  refine ⟨_, _, hw, (flagDescribes_iff Lz4Codec.lawful_literals horigin _ hw).mpr
    ⟨fun t compressed h => ?_, ExeFS.bytesComp, by rw [hback]; exact hrec⟩⟩
  cases t <;> cases h
  rfl

/-- Text that is stored as it is, in a file that says it is compressed. -/
theorem not_flagDescribes_uncompressed : ∃ file nso',
    writeFile Lz4Codec.literals ([.setCompressed text false].foldl Touch.after
      (createNso [1] [2] [3] 0)) = .ok file nso' ∧
    ¬ FlagDescribes Lz4Codec.literals ([.setCompressed text false].foldl Touch.after
      (createNso [1] [2] [3] 0)) file := by
  have hstored : ∀ t, stored Lz4Codec.literals (([.setCompressed text false].foldl Touch.after
      (createNso [1] [2] [3] 0)).segments t) = .ok (ofSegments [1] [0x10, 2] [0x10, 3] t) := by
    intro t
    cases t <;> decide
  have hbuildId : ([.setCompressed text false].foldl Touch.after
      (createNso [1] [2] [3] 0)).buildId.length = 0x20 := List.length_replicate
  refine ⟨_, _, (writeFile_eq_ok hbuildId).mpr ⟨_, hstored, rfl, rfl⟩, fun hd => ?_⟩
  have hflag := hd.flag text
  rw [flagWord_storedFile] at hflag
  revert hflag
  decide

end Sp2Module.Nso
