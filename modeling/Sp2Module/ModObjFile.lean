import Sp2Module.AllocModObj

/-!
# The file of the custom module

The module object that has been allocated survives writing the NSO to a file and reading it again,
as long as the file offsets of the segments stay below `2 ^ 32`. A file whose text is placed at the
last 32-bit offset shows what happens otherwise: the offset of its rwdata wraps around into the
zeros before the segments, and the header is gone.
-/

namespace Sp2Module

open NsoSegmentType BinaryReader

section File

variable {codec : Lz4Codec AppError} {nso nso' : Nso} {m : ModHeader}

theorem storable_allocModObj (hs : nso.Storable) (ha : allocModObj nso = .ok () nso') :
    nso'.Storable := by
  have hgrow : (growBss nso).Storable := hs.setBssOrAlign rwdata _
  unfold allocModObj at ha
  dsimp only at ha
  split at ha
  · cases ha
  · split at ha
    · cases ha
    · split at ha
      · cases ha
      · case _ hcreate =>
        cases ha
        obtain ⟨_, s, hget, hcreate⟩ := estate_bind_eq_ok.mp hcreate
        cases hget
        obtain ⟨_, s, hwrite, hpure⟩ := estate_bind_eq_ok.mp hcreate
        cases hpure
        exact hgrow.writeModHeader hwrite

/-- Where the header of a parsed NSO fits, the module object is allocated, and the file that is
written afterwards has the same header. -/
theorem allocModObj_sound {stream : Bytes} (hc : codec.Lawful)
    (hparse : Nso.parseFile codec stream = .ok nso) (hmod : nso.modSection = some m)
    (hfits : m.Fits nso) :
    ∃ nso' m', allocModObj nso = .ok () nso' ∧ ModHeader.ofNso nso' = .ok m' ∧
      ModObjAllocated nso m nso' m' ∧
      ∀ file nso₁, Nso.writeFile codec nso' = .ok file nso₁ → file.length < 2 ^ 32 →
        ∃ nso₂, Nso.parseFile codec file = .ok nso₂ ∧ nso₂.modSection = some m' := by
  obtain ⟨nso', m', halloc, hm', hm⟩ :=
    exists_modObjAllocated hfits (Nso.ofNso_of_parseFile hparse hmod) hmod
  refine ⟨nso', m', halloc, hm', hm, fun file nso₁ hw hlen => ?_⟩
  have hs := storable_allocModObj (Nso.storable_of_parseFile hc hparse) halloc
  obtain ⟨comp, hcomp, rfl, rfl⟩ := (Nso.writeFile_eq_ok hs.buildId).mp hw
  obtain ⟨br, hbr⟩ := hs.parseSegments_written hc hcomp hlen
  have hsame : Nso.SameImage { nso'.written comp with modSection := none } nso' :=
    ⟨fun _ => rfl, fun _ => rfl, fun _ => rfl⟩
  exact ⟨_, Nso.parseFile_of_modHeader hbr (hsame.modHeader.trans hm'), rfl⟩

end File

/-! ### A module with an empty text -/

section Example

/-- The header of the example. -/
def exampleHeader : ModHeader := ⟨0x1000, -0xFF8, 0x1C, 0x1C, 0, 0, 0, some fun _ => 0⟩

/-- A word to the header and an empty dynamic table. -/
def exampleRodata : Bytes := List.replicate 4 0 ++ (uintBytes 0x1000 ++ List.replicate 0x208 0)

def exampleSegment (fileOffset address : UInt32) (data : Bytes) : NsoSegment where
  rawData := data
  compressed := false
  fileOffset := fileOffset
  address := address
  decompressedSize := UInt32.ofNat data.length
  compressedSize := UInt32.ofNat data.length
  bssOrAlign := 0
  sha256 := some (computeHash data)

/-- The module whose file says that the empty text is at `fileOffset`. -/
def exampleNso (fileOffset : UInt32) : Nso where
  flag := 0
  buildId := List.replicate 0x20 0
  segments
    | text => exampleSegment fileOffset 0x2000 []
    | rodata => exampleSegment 0x100 0 exampleRodata
    | rwdata => exampleSegment 0x310 0x1000 exampleHeader.raw
  dynamicStringTable := ⟨0, 0⟩
  dynamicSymbolTable := ⟨0, 0⟩
  modSection := some exampleHeader

def exampleStream (fileOffset : UInt32) : Bytes :=
  (exampleNso fileOffset).header ++ (exampleRodata ++ exampleHeader.raw)

theorem sameImage_exampleNso (fileOffset : UInt32) :
    (exampleNso fileOffset).SameImage (exampleNso 0) := by
  constructor <;> intro t <;> cases t <;> rfl

theorem ofNso_exampleNso (fileOffset : UInt32) :
    ModHeader.ofNso (exampleNso fileOffset) = .ok exampleHeader := by
  rw [(sameImage_exampleNso fileOffset).modHeader]
  have hbase : (exampleNso 0).getModAddr = .ok 0x1000 := by decide +kernel
  have hraw : (exampleNso 0).readNso 0x1000 0x1C = .ok exampleHeader.raw := by decide +kernel
  have htable : (exampleNso 0).readNso (uintOfLong exampleHeader.dynamicAddr) 0x200 =
      .ok (List.replicate 0x200 0) := by decide +kernel
  have hnull : elf64Dyn (ofBytes (List.replicate 0x200 0)) =
      .ok (⟨0, 0⟩, (ofBytes (List.replicate 0x200 0)).advance 16) := by decide +kernel
  have hinfo : DynamicInfo.ofNso (exampleNso 0) exampleHeader.dynamicAddr = .ok fun _ => 0 :=
    except_bind_eq_ok.mpr ⟨_, htable,
      except_bind_eq_ok.mpr ⟨_, DynamicInfo.readEntries_of_null hnull rfl, rfl⟩⟩
  exact ModHeader.ofNso_eq hbase rfl hraw hinfo

theorem compressed_exampleNso (fileOffset : UInt32) (t : NsoSegmentType) :
    ((exampleNso fileOffset).segments t).compressed = false := by
  cases t <;> rfl

/-- The flag of the example says the same. -/
theorem compressed_eq_exampleNso (fileOffset : UInt32) (t : NsoSegmentType) :
    ((exampleNso fileOffset).segments t).compressed =
      Nso.compressedBit (exampleNso fileOffset).flag t := by
  have hbit : Nso.compressedBit 0 t = false := by cases t <;> decide
  exact (compressed_exampleNso fileOffset t).trans hbit.symm

theorem length_exampleRodata : exampleRodata.length = 0x210 := by decide +kernel

theorem decompressedSize_exampleNso (fileOffset : UInt32) (t : NsoSegmentType) :
    ((exampleNso fileOffset).segments t).decompressedSize = Nso.ofSegments 0 0x210 0x1C t := by
  cases t with
  | text => rfl
  | rodata => exact congrArg UInt32.ofNat length_exampleRodata
  | rwdata => exact congrArg UInt32.ofNat exampleHeader.length_raw

theorem length_exampleNso (fileOffset : UInt32) (t : NsoSegmentType) :
    ((exampleNso fileOffset).segments t).rawData.length = Nso.ofSegments 0 0x210 0x1C t := by
  cases t with
  | text => rfl
  | rodata => exact length_exampleRodata
  | rwdata => exact exampleHeader.length_raw

theorem parseFile_exampleStream (fileOffset : UInt32) :
    Nso.parseFile Lz4Codec.literals (exampleStream fileOffset) = .ok (exampleNso fileOffset) := by
  have hhead : (exampleNso fileOffset).header.length = 0x100 := Nso.length_header rfl
  have hsize : ∀ t, ((exampleNso fileOffset).segments t).decompressedSize.toNat =
      ((exampleNso fileOffset).segments t).rawData.length := by
    intro t
    rw [decompressedSize_exampleNso, length_exampleNso]
    cases t <;> rfl
  have hmax : ∀ t,
      ((exampleNso fileOffset).segments t).decompressedSize.toNat ≤ maxArrayLength := by
    intro t
    rw [decompressedSize_exampleNso]
    cases t <;> decide
  have hcount : ∀ t, ((exampleNso fileOffset).segments t).compressedSize =
      ((exampleNso fileOffset).segments t).decompressedSize := by
    intro t
    cases t <;> rfl
  have hslice : ∀ t, slice (exampleStream fileOffset)
      ((exampleNso fileOffset).segments t).fileOffset.toNat
      ((exampleNso fileOffset).segments t).compressedSize.toNat =
        ((exampleNso fileOffset).segments t).rawData := by
    intro t
    rw [hcount, hsize]
    cases t with
    | text => rfl
    | rodata => exact slice_middle hhead rfl
    | rwdata =>
      rw [exampleStream, ← List.append_assoc, ← List.append_nil (_ ++ exampleHeader.raw),
        List.append_assoc]
      refine slice_middle ?_ rfl
      rw [List.length_append, hhead, length_exampleRodata]
      rfl
  have hunpack : ∀ t, Nso.unpack Lz4Codec.literals ((exampleNso fileOffset).segments t)
      (slice (exampleStream fileOffset) ((exampleNso fileOffset).segments t).fileOffset.toNat
        ((exampleNso fileOffset).segments t).compressedSize.toNat) =
      .ok ((exampleNso fileOffset).segments t).rawData := by
    intro t
    rw [hslice, Nso.unpack, compressed_exampleNso]
    rfl
  have hfile : exampleStream fileOffset = (exampleNso fileOffset).header ++ _ := rfl
  obtain ⟨br, hbr⟩ := (Nso.parseSegments_header_iff rfl (compressed_eq_exampleNso fileOffset)
    (by intro t; cases t <;> rfl) hmax (fun t => by rw [hcount]; exact hmax t) hfile).mpr
      ⟨_, hunpack, rfl⟩
  refine (Nso.parseFile_of_modHeader hbr ?_).trans rfl
  exact (Nso.sameImage_modSection _ none).modHeader.trans (ofNso_exampleNso fileOffset)

theorem fits_exampleNso (fileOffset : UInt32) : exampleHeader.Fits (exampleNso fileOffset) where
  sized t := by
    rw [length_exampleNso, decompressedSize_exampleNso]
    cases t <;> rfl
  bssEnd := by
    rw [Nso.rwdataSegment, decompressedSize_exampleNso]
    rfl
  pointer := by decide
  dynamic := by decide
  segment_lt t := by
    rw [decompressedSize_exampleNso]
    cases t with
    | text => exact show 0x2000 < 2 ^ 31 by omega
    | rodata => exact show 0x210 < 2 ^ 31 by omega
    | rwdata => exact show 0x101C < 2 ^ 31 by omega
  bss_lt := by
    rw [Nso.rwdataSegment, decompressedSize_exampleNso]
    exact show 0x111C < 2 ^ 31 by omega

theorem disjoint_exampleNso (fileOffset : UInt32) (t u : NsoSegmentType) (addr : UInt32)
    (ht : ((exampleNso fileOffset).segments t).Contains addr)
    (hu : ((exampleNso fileOffset).segments u).Contains addr) : t = u := by
  have haddr : ∀ t, ((exampleNso fileOffset).segments t).address =
      Nso.ofSegments 0x2000 0 0x1000 t := by
    intro t
    cases t <;> rfl
  rw [NsoSegment.contains_iff, haddr, decompressedSize_exampleNso] at ht hu
  obtain ⟨ht, ht', -⟩ := ht
  obtain ⟨hu, hu', -⟩ := hu
  cases t <;> cases u <;> simp [Nso.ofSegments] at ht ht' hu hu' ⊢ <;> omega

/-- A file where the text follows the header. -/
theorem allocModObj_sound_example : ∃ nso' m',
    allocModObj (exampleNso 0x100) = .ok () nso' ∧ ModHeader.ofNso nso' = .ok m' ∧
      ModObjAllocated (exampleNso 0x100) exampleHeader nso' m' ∧
      ∀ file nso₁, Nso.writeFile Lz4Codec.literals nso' = .ok file nso₁ → file.length < 2 ^ 32 →
        ∃ nso₂, Nso.parseFile Lz4Codec.literals file = .ok nso₂ ∧ nso₂.modSection = some m' :=
  allocModObj_sound Lz4Codec.lawful_literals (parseFile_exampleStream 0x100) rfl
    (fits_exampleNso 0x100)

/-- The example after the module object has been allocated. -/
def exampleAllocated : Nso :=
  ((growBss (exampleNso 0xFFFFFFFF)).overlay rodata 4 (uintBytes 0x1000)).overlay rwdata 0
    (exampleHeader.withModObj (exampleNso 0xFFFFFFFF)).raw

theorem allocModObj_exampleNso :
    allocModObj (exampleNso 0xFFFFFFFF) = .ok () exampleAllocated := by
  have hbase : (growBss (exampleNso 0xFFFFFFFF)).getModAddr = .ok 0x1000 := by decide +kernel
  have hpointer : (growBss (exampleNso 0xFFFFFFFF)).locate 4 4 = .ok (rodata, 4) := by
    decide +kernel
  have hheader : ((growBss (exampleNso 0xFFFFFFFF)).overlay rodata 4 (uintBytes 0x1000)).locate
      0x1000 0x1C = .ok (rwdata, 0) := by
    rw [Nso.locate_congr (Nso.layout_overlay _ _ _ _)]
    decide +kernel
  have hwrite : Nso.writeNso 4 (uintBytes 0x1000) (growBss (exampleNso 0xFFFFFFFF)) =
      .ok () ((growBss (exampleNso 0xFFFFFFFF)).overlay rodata 4 (uintBytes 0x1000)) := by
    rw [Nso.writeNso_eq, length_uintBytes, hpointer]
  have hwrite' : Nso.writeNso 0x1000 (exampleHeader.withModObj (exampleNso 0xFFFFFFFF)).raw
      ((growBss (exampleNso 0xFFFFFFFF)).overlay rodata 4 (uintBytes 0x1000)) =
        .ok () exampleAllocated := by
    rw [Nso.writeNso_eq, ModHeader.length_raw, ModHeader.headerSize, hheader]
    rfl
  exact allocModObj_eq hbase rfl rfl (estate_bind_eq_ok.mpr ⟨(), _, hwrite, hwrite'⟩)

def exampleComp (t : NsoSegmentType) : Bytes := (exampleAllocated.segments t).rawData

theorem layout_exampleAllocated :
    exampleAllocated.layout = (growBss (exampleNso 0xFFFFFFFF)).layout :=
  (Nso.layout_overlay _ _ _ _).trans (Nso.layout_overlay _ _ _ _)

theorem length_exampleComp (t : NsoSegmentType) :
    (exampleComp t).length = Nso.ofSegments 0 0x210 0x1C t := by
  rw [exampleComp, Nso.rawLength_congr layout_exampleAllocated, growBss,
    (Nso.sameImage_setBssOrAlign _ _ _).rawData, length_exampleNso]

/-- The pointer is written as it was. -/
theorem exampleComp_rodata : exampleComp rodata = exampleRodata := by
  have hpointer : uintBytes 0x1000 = slice exampleRodata 4 4 := by decide
  have hgrow : (growBss (exampleNso 0xFFFFFFFF)).segments rodata =
      exampleSegment 0x100 0 exampleRodata := Nso.segments_setSegment_of_ne (by decide) _
  have hfits : 4 + 4 ≤ exampleRodata.length := by
    rw [length_exampleRodata]
    decide
  simp only [exampleComp, exampleAllocated]
  rw [Nso.overlay, Nso.segments_setSegment_of_ne (by decide), Nso.overlay,
    Nso.segments_setSegment_same, hgrow, NsoSegment.overlay, hpointer]
  dsimp only [exampleSegment]
  rw [overwrite_self hfits]

/-- The offset of the rwdata wraps around. -/
theorem fileOffsets_exampleAllocated (t : NsoSegmentType) :
    Nso.fileOffsets exampleAllocated.firstOffset exampleComp t =
      Nso.ofSegments 0xFFFFFFFF 0xFFFFFFFF 0x20F t := by
  have hfirst : exampleAllocated.firstOffset = 0xFFFFFFFF := by decide
  rw [hfirst]
  cases t with
  | text => rfl
  | rodata =>
    rw [Nso.fileOffsets, length_exampleComp]
    decide
  | rwdata =>
    rw [Nso.fileOffsets, length_exampleComp, length_exampleComp]
    decide

/-- What is read for each segment after the example has been written. -/
def exampleReread : NsoSegmentType → Bytes :=
  Nso.ofSegments [] exampleRodata (List.replicate 0x1C 0)

def exampleReparsed : Nso :=
  { exampleAllocated.written exampleComp with
    segments := fun t =>
      { (exampleAllocated.written exampleComp).segments t with rawData := exampleReread t }
    modSection := none }

theorem ofNso_exampleReparsed :
    ModHeader.ofNso exampleReparsed = .error (.app (.nso "Invalid MOD0 header")) := by
  have hbase : exampleReparsed.getModAddr = .ok 0x1000 := by decide +kernel
  have hzeros : exampleReparsed.readNso 0x1000 0x1C = .ok (List.replicate 0x1C 0) := by
    decide +kernel
  have hmagic : (readBytes 4 : Reads AppError Bytes) (ofBytes (List.replicate 0x1C 0)) =
      .ok (List.replicate 4 0, (ofBytes (List.replicate 0x1C 0)).advance 4) := by decide
  have hfields : ModHeader.readFields 0x1000 (ofBytes (List.replicate 0x1C 0)) =
      .error (.app (.nso "Invalid MOD0 header")) := by
    unfold ModHeader.readFields
    rw [bind_of_ok hmagic]
    rfl
  exact ModHeader.ofNso_eq_error hbase hzeros hfields

theorem stored_exampleAllocated (t : NsoSegmentType) :
    Nso.stored Lz4Codec.literals (exampleAllocated.segments t) = .ok (exampleComp t) := by
  cases t <;> rfl

theorem storable_exampleAllocated : exampleAllocated.Storable :=
  storable_allocModObj (Nso.storable_of_parseFile Lz4Codec.lawful_literals
    (parseFile_exampleStream 0xFFFFFFFF)) allocModObj_exampleNso

/-- The file of the example ends with its segments, and the offset its table gives for the rwdata
lies in the zeros before them. -/
theorem parseFile_exampleAllocated :
    Nso.parseFile Lz4Codec.literals (exampleAllocated.storedFile exampleComp) =
      .ok exampleReparsed := by
  have hhead : (exampleAllocated.written exampleComp).header.length = 0x100 :=
    Nso.length_header rfl
  have hfirst : exampleAllocated.firstOffset.toNat = 2 ^ 32 - 1 := by decide
  have hslice : ∀ t, slice (exampleAllocated.storedFile exampleComp)
      (Nso.fileOffsets exampleAllocated.firstOffset exampleComp t).toNat (exampleComp t).length =
        exampleReread t := by
    intro t
    rw [fileOffsets_exampleAllocated, Nso.storedFile, hfirst, length_exampleComp,
      exampleComp_rodata]
    cases t with
    | text => rfl
    | rodata =>
      rw [← List.append_assoc, ← List.append_assoc]
      refine slice_middle ?_ length_exampleRodata
      rw [List.length_append, List.length_append, hhead, List.length_replicate, length_exampleComp]
      rfl
    | rwdata =>
      have hoff : (Nso.ofSegments 0xFFFFFFFF 0xFFFFFFFF 0x20F rwdata : UInt32).toNat =
          (exampleAllocated.written exampleComp).header.length + 0x10F := by
        rw [hhead]
        rfl
      have hlen : (Nso.ofSegments 0 0x210 0x1C rwdata : ℕ) = 0x1C := rfl
      rw [hoff, hlen, slice_append_right, slice_append_left, slice_replicate]
      · rfl
      · decide
      · rw [List.length_replicate]
        decide
  obtain ⟨br, hbr⟩ := (storable_exampleAllocated.parseSegments_storedFile_iff
    Lz4Codec.lawful_literals stored_exampleAllocated).mpr ⟨exampleReread, fun t => by
      rw [hslice]
      cases t <;> rfl, rfl⟩
  exact Nso.parseFile_of_error hbr ofNso_exampleReparsed

/-- The text at the last 32-bit offset: the written file has no header any more. -/
theorem not_reparsed_lastOffset :
    Nso.parseFile Lz4Codec.literals (exampleStream 0xFFFFFFFF) = .ok (exampleNso 0xFFFFFFFF) ∧
      (exampleNso 0xFFFFFFFF).modSection = some exampleHeader ∧
      exampleHeader.Fits (exampleNso 0xFFFFFFFF) ∧
      (∀ t u addr, ((exampleNso 0xFFFFFFFF).segments t).Contains addr →
        ((exampleNso 0xFFFFFFFF).segments u).Contains addr → t = u) ∧
      ¬ ∃ nso' m', allocModObj (exampleNso 0xFFFFFFFF) = .ok () nso' ∧
        ModHeader.ofNso nso' = .ok m' ∧
        ∀ file nso₁, Nso.writeFile Lz4Codec.literals nso' = .ok file nso₁ →
          ∃ nso₂, Nso.parseFile Lz4Codec.literals file = .ok nso₂ ∧ nso₂.modSection = some m' := by
  refine ⟨parseFile_exampleStream _, rfl, fits_exampleNso _, disjoint_exampleNso _, ?_⟩
  rintro ⟨nso', m', halloc, hm', hfile⟩
  rw [allocModObj_exampleNso] at halloc
  cases halloc
  obtain ⟨nso₂, hparse, hmod⟩ := hfile _ _ ((Nso.writeFile_eq_ok rfl).mpr
    ⟨exampleComp, stored_exampleAllocated, rfl, rfl⟩)
  have hnone := parseFile_exampleAllocated.symm.trans hparse
  cases hnone
  cases hmod

end Example

end Sp2Module
