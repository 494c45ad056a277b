import Sp2Module.Lz4
import Sp2Module.ModHeader

/-!
# NSO files

A header of `0x100` bytes with three tables of one entry for each segment, and the stored segments
at the offsets the first table gives. Reading a file ends with an attempt at the module header.
Writing one places the segments one after another and changes the NSO accordingly.
-/

namespace Sp2Module.Nso

open BinaryReader NsoSegmentType

def headerMagic : String := "NSO0"

def headerSize : UInt32 := 0x100

/-! ### Reading -/

/-- An array with an element for each segment. -/
def ofSegments {α : Type} (a b c : α) : NsoSegmentType → α
  | text => a
  | rodata => b
  | rwdata => c

theorem ofSegments_self {α : Type} (a : NsoSegmentType → α) :
    ofSegments (a text) (a rodata) (a rwdata) = a := by
  funext t
  cases t <;> rfl

/-- A loop over the segments in the order of their indices. -/
def forSegments {α : Type} (f : NsoSegmentType → Reads AppError α) :
    Reads AppError (NsoSegmentType → α) := do
  let a ← f text
  let b ← f rodata
  let c ← f rwdata
  return ofSegments a b c

def compressedBit (flag : UInt32) (t : NsoSegmentType) : Bool :=
  (flag >>> UInt32.ofNat t.index) &&& 1 != 0

/-- `NsoSegment(br, index, flag)`. -/
def nsoSegment (flag : UInt32) (t : NsoSegmentType) : Reads AppError NsoSegment := do
  let fileOffset ← readUInt32
  let address ← readUInt32
  let decompressedSize ← readUInt32
  let bssOrAlign ← readUInt32
  return ⟨[], compressedBit flag t, fileOffset, address, decompressedSize, 0, bssOrAlign, none⟩

def dataExtent : Reads AppError DataExtent := do
  let offset ← readUInt32
  let size ← readUInt32
  return ⟨offset, size⟩

variable (codec : Lz4Codec AppError)

/-- The buffer of a segment; the array that is allocated for it first is thrown away. -/
def readRawData (seg : NsoSegment) : Reads AppError Bytes := do
  if maxArrayLength < seg.decompressedSize.toNat then
    throw (newArrayExn seg.decompressedSize.toNat)
  setPosition seg.fileOffset.toNat
  let comp ← readBytes seg.compressedSize.toInt32.toInt
  if seg.compressed then codec.decode comp seg.decompressedSize.toInt32.toInt else return comp

/-- `ParseFile` up to the module header. -/
def parseSegments : Reads AppError Nso := do
  let magic ← readBytes 4
  if asciiGetString magic ≠ headerMagic then throw (.app (.nso "Invalid magic"))
  let _ ← readUInt64
  let flag ← readUInt32
  let entries ← forSegments (nsoSegment flag)
  let buildId ← readBytes 0x20
  let compressedSize ← forSegments fun _ => readUInt32
  skip 0x24
  let dynamicStringTable ← dataExtent
  let dynamicSymbolTable ← dataExtent
  let sha256 ← forSegments fun _ => readBytes 0x20
  let segments := fun t =>
    { entries t with compressedSize := compressedSize t, sha256 := some (sha256 t) }
  let rawData ← forSegments fun t => readRawData codec (segments t)
  return ⟨flag, buildId, fun t => { segments t with rawData := rawData t }, dynamicStringTable,
    dynamicSymbolTable, none⟩

/-- A module header that cannot be found or read leaves the NSO without one. -/
def parseFile (stream : Bytes) : Except Exception Nso := do
  let (nso, _) ← parseSegments codec (.ofBytes stream)
  match ModHeader.ofNso nso with
  | .ok m => return { nso with modSection := some m }
  | .error (.app (.nso _)) => return { nso with modSection := none }
  | .error x => throw x

/-- What is read depends on how the codec decodes only. -/
theorem parseFile_congr {codec codec' : Lz4Codec AppError} (h : codec.decode = codec'.decode) :
    parseFile codec = parseFile codec' := by
  have hraw : readRawData codec = readRawData codec' := by
    funext seg
    rw [readRawData, readRawData, h]
  have hsegments : parseSegments codec = parseSegments codec' := by
    rw [parseSegments, parseSegments, hraw]
  funext stream
  rw [parseFile, parseFile, hsegments]

/-! ### Writing -/

/-- The bytes that are stored for a segment. -/
def stored (seg : NsoSegment) : Except Exception Bytes :=
  if seg.compressed then codec.encode seg.rawData else .ok seg.rawData

/-- Gives the segments their offsets and stored sizes, from `off` on. -/
def placeSegments : List NsoSegmentType → UInt32 → EStateM Exception Nso (List Bytes)
  | [], _ => fun nso => .ok [] nso
  | t :: ts, off => fun nso =>
    let seg := { nso.segments t with fileOffset := off }
    match stored codec seg with
    | .error x => .error x (nso.setSegment t seg)
    | .ok comp =>
      let seg := { seg with compressedSize := UInt32.ofNat comp.length }
      match placeSegments ts (off + seg.compressedSize) (nso.setSegment t seg) with
      | .error x nso => .error x nso
      | .ok comps nso => .ok (comp :: comps) nso

def hashSegments (nso : Nso) : Nso :=
  { nso with segments := fun t =>
      { nso.segments t with sha256 := some (computeHash (nso.segments t).rawData) } }

def tableEntry (seg : NsoSegment) : Bytes :=
  uintBytes seg.fileOffset ++ (uintBytes seg.address ++ (uintBytes seg.decompressedSize ++
    uintBytes seg.bssOrAlign))

def extentBytes (extent : DataExtent) : Bytes := uintBytes extent.offset ++ uintBytes extent.size

/-- The words of a table with one entry for each segment. -/
def segmentTable (word : NsoSegmentType → Bytes) : Bytes :=
  word text ++ (word rodata ++ word rwdata)

def header (nso : Nso) : Bytes :=
  asciiGetBytes headerMagic ++ (ulongBytes 0 ++ (uintBytes nso.flag ++
    (segmentTable (fun t => tableEntry (nso.segments t)) ++ (nso.buildId ++
      (segmentTable (fun t => uintBytes (nso.segments t).compressedSize) ++
        (List.replicate 0x24 0 ++ (extentBytes nso.dynamicStringTable ++
          (extentBytes nso.dynamicSymbolTable ++
            segmentTable fun t => computeHash (nso.segments t).rawData))))))))

/-- Each stored segment after zeros up to its offset. -/
def writeSegments : Bytes → List (UInt32 × Bytes) → Bytes
  | stream, [] => stream
  | stream, (fileOffset, comp) :: rest =>
    writeSegments (stream ++ List.replicate (fileOffset.toNat - stream.length) 0 ++ comp) rest

/-- The offset of the first segment, not before the end of the header. -/
def firstOffset (nso : Nso) : UInt32 :=
  if nso.textSegment.fileOffset ≤ headerSize then headerSize else nso.textSegment.fileOffset

def writeFile : EStateM Exception Nso Bytes := fun nso =>
  let off := nso.firstOffset
  match placeSegments codec all off nso with
  | .error x nso => .error x nso
  | .ok comp nso =>
    let nso := nso.hashSegments
    let offsets := all.map fun t => (nso.segments t).fileOffset
    .ok (writeSegments nso.header (offsets.zip comp)) nso

/-! ### What a file holds -/

/-- The offsets of the segments, placed from `off` on. -/
def fileOffsets (off : UInt32) (comp : NsoSegmentType → Bytes) : NsoSegmentType → UInt32
  | text => off
  | rodata => off + UInt32.ofNat (comp text).length
  | rwdata => off + UInt32.ofNat (comp text).length + UInt32.ofNat (comp rodata).length

/-- The NSO after its segments have been stored as `comp`. -/
def written (nso : Nso) (comp : NsoSegmentType → Bytes) : Nso :=
  { nso with segments := fun t =>
      { nso.segments t with
        fileOffset := fileOffsets nso.firstOffset comp t
        compressedSize := UInt32.ofNat (comp t).length
        sha256 := some (computeHash (nso.segments t).rawData) } }

variable {codec} {nso nso' : Nso} {file : Bytes}

theorem stored_congr {s s' : NsoSegment} (hc : s.compressed = s'.compressed)
    (hr : s.rawData = s'.rawData) : stored codec s = stored codec s' := by
  simp only [stored, hc, hr]

theorem segments_ext {nso nso' : Nso} (hf : nso.flag = nso'.flag) (hb : nso.buildId = nso'.buildId)
    (hs : ∀ t, nso.segments t = nso'.segments t)
    (hstr : nso.dynamicStringTable = nso'.dynamicStringTable)
    (hsym : nso.dynamicSymbolTable = nso'.dynamicSymbolTable)
    (hmod : nso.modSection = nso'.modSection) : nso = nso' := by
  cases nso
  cases nso'
  simp_all [funext_iff]

/-- Either some segment cannot be stored, or each one gets its offset and its stored size. -/
theorem placeSegments_all (codec : Lz4Codec AppError) (nso : Nso) (off : UInt32) :
    ((∃ t x, stored codec (nso.segments t) = .error x) ∧
      ∃ x nso', placeSegments codec all off nso = .error x nso') ∨
    ∃ comp : NsoSegmentType → Bytes, (∀ t, stored codec (nso.segments t) = .ok (comp t)) ∧
      placeSegments codec all off nso = .ok (all.map comp) { nso with segments := fun t =>
        { nso.segments t with
          fileOffset := fileOffsets off comp t
          compressedSize := UInt32.ofNat (comp t).length } } := by
  have hro : ∀ s : NsoSegment, (nso.setSegment text s).segments rodata = nso.segments rodata :=
    fun s => segments_setSegment_of_ne (by decide) s
  have hrw : ∀ s s' : NsoSegment, ((nso.setSegment text s).setSegment rodata s').segments rwdata =
      nso.segments rwdata := fun s s' => by
    rw [segments_setSegment_of_ne (by decide), segments_setSegment_of_ne (by decide)]
  have hst : ∀ (s : NsoSegment) (o : UInt32),
      stored codec { s with fileOffset := o } = stored codec s :=
    fun s o => stored_congr rfl rfl
  cases htext : stored codec (nso.segments text) with
  | error x =>
    refine Or.inl ⟨⟨text, x, htext⟩, ?_⟩
    simp only [all, placeSegments, hst, htext]
    exact ⟨_, _, rfl⟩
  | ok ctext =>
    cases hrodata : stored codec (nso.segments rodata) with
    | error x =>
      refine Or.inl ⟨⟨rodata, x, hrodata⟩, ?_⟩
      simp only [all, placeSegments, hst, htext, hro, hrodata]
      exact ⟨_, _, rfl⟩
    | ok crodata =>
      cases hrwdata : stored codec (nso.segments rwdata) with
      | error x =>
        refine Or.inl ⟨⟨rwdata, x, hrwdata⟩, ?_⟩
        simp only [all, placeSegments, hst, htext, hro, hrodata, hrw, hrwdata]
        exact ⟨_, _, rfl⟩
      | ok crwdata =>
        refine Or.inr ⟨ofSegments ctext crodata crwdata, ?_, ?_⟩
        · intro t
          cases t
          exacts [htext, hrodata, hrwdata]
        · simp only [all, placeSegments, hst, htext, hro, hrodata, hrw, hrwdata]
          congr 1
          refine segments_ext rfl rfl ?_ rfl rfl rfl
          intro t
          cases t <;> rfl

/-- A file is written exactly when every segment can be stored. -/
theorem writeFile_eq_ok_iff :
    writeFile codec nso = .ok file nso' ↔ ∃ comp : NsoSegmentType → Bytes,
      (∀ t, stored codec (nso.segments t) = .ok (comp t)) ∧ nso' = nso.written comp ∧
        file = writeSegments (nso.written comp).header
          (all.map fun t => (((nso.written comp).segments t).fileOffset, comp t)) := by
  rcases placeSegments_all codec nso nso.firstOffset with
    ⟨⟨t, x, ht⟩, x', nso₁, herr⟩ | ⟨comp, hcomp, hok⟩
  · simp only [writeFile, herr, reduceCtorEq, false_iff, not_exists, not_and]
    intro comp hcomp
    rw [hcomp t] at ht
    cases ht
  · simp only [writeFile, hok]
    constructor
    · intro h
      cases h
      exact ⟨comp, hcomp, rfl, rfl⟩
    · rintro ⟨comp', hcomp', rfl, rfl⟩
      have heq : comp' = comp := funext fun t => by
        have h := hcomp' t
        rw [hcomp t] at h
        exact (Except.ok.inj h).symm
      subst heq
      rfl

/-! ### The module header of a file -/

/-- What has been parsed is the segments with or without a module header. -/
theorem parseFile_eq_ok {stream : Bytes} (h : parseFile codec stream = .ok nso) :
    ∃ nso₀ br, parseSegments codec (.ofBytes stream) = .ok (nso₀, br) ∧
      ((∃ m, ModHeader.ofNso nso₀ = .ok m ∧ nso = { nso₀ with modSection := some m }) ∨
        ∃ message, ModHeader.ofNso nso₀ = .error (.app (.nso message)) ∧
          nso = { nso₀ with modSection := none }) := by
  obtain ⟨⟨nso₀, br⟩, hparse, h⟩ := except_bind_eq_ok.mp h
  dsimp only at h
  refine ⟨nso₀, br, hparse, ?_⟩
  split at h
  · case _ m hm =>
    cases h
    exact Or.inl ⟨m, hm, rfl⟩
  · case _ message hm =>
    cases h
    exact Or.inr ⟨message, hm, rfl⟩
  · cases h

theorem parseFile_of_modHeader {stream : Bytes} {m : ModHeader} {br : BinaryReader}
    (hparse : parseSegments codec (.ofBytes stream) = .ok (nso, br))
    (hm : ModHeader.ofNso nso = .ok m) :
    parseFile codec stream = .ok { nso with modSection := some m } := by
  refine except_bind_eq_ok.mpr ⟨_, hparse, ?_⟩
  simp only [hm]
  rfl

theorem parseFile_of_error {stream : Bytes} {message : String} {br : BinaryReader}
    (hparse : parseSegments codec (.ofBytes stream) = .ok (nso, br))
    (hm : ModHeader.ofNso nso = .error (.app (.nso message))) :
    parseFile codec stream = .ok { nso with modSection := none } := by
  refine except_bind_eq_ok.mpr ⟨_, hparse, ?_⟩
  simp only [hm]
  rfl

theorem sameImage_modSection (nso : Nso) (m : Option ModHeader) :
    Nso.SameImage { nso with modSection := m } nso :=
  ⟨fun _ => rfl, fun _ => rfl, fun _ => rfl⟩

/-- The module header of a parsed NSO is decoded from it. -/
theorem ofNso_of_parseFile {stream : Bytes} {m : ModHeader}
    (h : parseFile codec stream = .ok nso) (hmod : nso.modSection = some m) :
    ModHeader.ofNso nso = .ok m := by
  obtain ⟨nso₀, br, -, ⟨m', hm, rfl⟩ | ⟨message, -, rfl⟩⟩ := parseFile_eq_ok h
  · cases hmod
    exact (sameImage_modSection nso₀ _).modHeader.trans hm
  · cases hmod

/-! ### The parts of a file -/

theorem length_headerMagic : (asciiGetBytes headerMagic).length = 4 := by decide

theorem length_header (h : nso.buildId.length = 0x20) : nso.header.length = 0x100 := by
  simp only [header, segmentTable, tableEntry, extentBytes, List.length_append, length_headerMagic,
    length_ulongBytes, length_uintBytes, h, List.length_replicate, Sha256.length_computeHash]

theorem le_firstOffset (nso : Nso) : 0x100 ≤ nso.firstOffset.toNat := by
  unfold firstOffset
  split_ifs with h
  · exact le_rfl
  · exact (UInt32.lt_iff_toNat_lt.mp (UInt32.not_le.mp h)).le

/-- Placing the segments again does not move them. -/
theorem firstOffset_written (nso : Nso) (comp : NsoSegmentType → Bytes) :
    (nso.written comp).firstOffset = nso.firstOffset := by
  change (if nso.firstOffset ≤ headerSize then headerSize else nso.firstOffset) = nso.firstOffset
  split_ifs with h
  · exact UInt32.le_antisymm (UInt32.le_iff_toNat_le.mpr nso.le_firstOffset) h
  · rfl

/-- Where the segments of a written file start: none of the offsets wraps around in a file below
`2 ^ 32` bytes. -/
theorem toNat_fileOffsets (off : UInt32) (comp : NsoSegmentType → Bytes)
    (h : off.toNat + (comp text).length + (comp rodata).length < 2 ^ 32) :
    (fileOffsets off comp rodata).toNat = off.toNat + (comp text).length ∧
      (fileOffsets off comp rwdata).toNat =
        off.toNat + (comp text).length + (comp rodata).length := by
  have htext : (UInt32.ofNat (comp text).length).toNat = (comp text).length :=
    UInt32.toNat_ofNat_of_lt' (by show _ < 2 ^ 32; omega)
  have hrodata : (UInt32.ofNat (comp rodata).length).toNat = (comp rodata).length :=
    UInt32.toNat_ofNat_of_lt' (by show _ < 2 ^ 32; omega)
  have hro : (fileOffsets off comp rodata).toNat = off.toNat + (comp text).length := by
    rw [fileOffsets, UInt32.toNat_add, htext, Nat.mod_eq_of_lt (by omega)]
  have hrw : (fileOffsets off comp rwdata).toNat =
      ((fileOffsets off comp rodata).toNat + (UInt32.ofNat (comp rodata).length).toNat) % 2 ^ 32 :=
    UInt32.toNat_add _ _
  refine ⟨hro, ?_⟩
  rw [hrw, hro, hrodata, Nat.mod_eq_of_lt (by omega)]

/-- Zeros stand before the first segment alone when no offset is beyond the end of the segment
before it. -/
theorem writeSegments_of_le {stream : Bytes} {off : NsoSegmentType → UInt32}
    {comp : NsoSegmentType → Bytes} (htext : stream.length ≤ (off text).toNat)
    (hrodata : (off rodata).toNat ≤ (off text).toNat + (comp text).length)
    (hrwdata : (off rwdata).toNat ≤ (off text).toNat + (comp text).length + (comp rodata).length) :
    writeSegments stream (all.map fun t => (off t, comp t)) =
      stream ++ (List.replicate ((off text).toNat - stream.length) 0 ++
        (comp text ++ (comp rodata ++ comp rwdata))) := by
  have hpad₁ : (off rodata).toNat -
      (stream ++ List.replicate ((off text).toNat - stream.length) 0 ++ comp text).length = 0 := by
    simp only [List.length_append, List.length_replicate]
    omega
  have hpad₂ : (off rwdata).toNat -
      (stream ++ List.replicate ((off text).toNat - stream.length) 0 ++
        comp text ++ comp rodata).length = 0 := by
    simp only [List.length_append, List.length_replicate]
    omega
  simp only [all, List.map_cons, List.map_nil, writeSegments, hpad₁, List.replicate_zero,
    List.append_nil, hpad₂]
  simp only [List.append_assoc]

/-- The bytes of a written file: its header, zeros up to the first segment, and the stored
segments. -/
def storedFile (nso : Nso) (comp : NsoSegmentType → Bytes) : Bytes :=
  (nso.written comp).header ++ (List.replicate (nso.firstOffset.toNat - 0x100) 0 ++
    (comp text ++ (comp rodata ++ comp rwdata)))

theorem length_storedFile (hb : nso.buildId.length = 0x20) (comp : NsoSegmentType → Bytes) :
    (nso.storedFile comp).length =
      nso.firstOffset.toNat + (comp text).length + (comp rodata).length + (comp rwdata).length := by
  have hhead : (nso.written comp).header.length = 0x100 := length_header hb
  have hoff := nso.le_firstOffset
  simp only [storedFile, List.length_append, hhead, List.length_replicate]
  omega

/-- Also where offsets wrap around, the stored segments follow one another. -/
theorem writeSegments_written (hb : nso.buildId.length = 0x20) (comp : NsoSegmentType → Bytes) :
    writeSegments (nso.written comp).header
      (all.map fun t => (((nso.written comp).segments t).fileOffset, comp t)) =
        nso.storedFile comp := by
  have hhead : (nso.written comp).header.length = 0x100 := length_header hb
  have hoff := nso.le_firstOffset
  have hro : (fileOffsets nso.firstOffset comp rodata).toNat ≤
      nso.firstOffset.toNat + (comp text).length := by
    rw [fileOffsets, UInt32.toNat_add, UInt32.toNat_ofNat']
    omega
  have hrw : (fileOffsets nso.firstOffset comp rwdata).toNat ≤
      nso.firstOffset.toNat + (comp text).length + (comp rodata).length := by
    rw [fileOffsets, UInt32.toNat_add, UInt32.toNat_add, UInt32.toNat_ofNat', UInt32.toNat_ofNat']
    omega
  have heq : writeSegments (nso.written comp).header
      (all.map fun t => (fileOffsets nso.firstOffset comp t, comp t)) = _ :=
    writeSegments_of_le (by rw [hhead]; exact hoff) hro hrw
  rw [hhead] at heq
  exact heq

theorem writeFile_eq_ok (hb : nso.buildId.length = 0x20) :
    writeFile codec nso = .ok file nso' ↔ ∃ comp : NsoSegmentType → Bytes,
      (∀ t, stored codec (nso.segments t) = .ok (comp t)) ∧ nso' = nso.written comp ∧
        file = nso.storedFile comp := by
  rw [writeFile_eq_ok_iff]
  refine exists_congr fun comp => ?_
  rw [writeSegments_written hb]

/-- In a file below `2 ^ 32` bytes every segment is found at its offset. -/
theorem slice_storedFile {comp : NsoSegmentType → Bytes} (hb : nso.buildId.length = 0x20)
    (hlen : (nso.storedFile comp).length < 2 ^ 32) (t : NsoSegmentType) :
    slice (nso.storedFile comp) (fileOffsets nso.firstOffset comp t).toNat (comp t).length =
      comp t := by
  have hhead : (nso.written comp).header.length = 0x100 := length_header hb
  have hoff := nso.le_firstOffset
  rw [length_storedFile hb] at hlen
  obtain ⟨hro, hrw⟩ := toNat_fileOffsets nso.firstOffset comp (by omega)
  unfold storedFile
  cases t with
  | text =>
    rw [← List.append_assoc]
    refine slice_middle ?_ rfl
    simp only [List.length_append, List.length_replicate, hhead]
    exact Nat.add_sub_cancel' hoff
  | rodata =>
    rw [← List.append_assoc, ← List.append_assoc]
    refine slice_middle ?_ rfl
    simp only [List.length_append, List.length_replicate, hhead]
    omega
  | rwdata =>
    rw [← List.append_assoc, ← List.append_assoc, ← List.append_assoc,
      ← List.append_nil (_ ++ comp rwdata), List.append_assoc]
    refine slice_middle ?_ rfl
    simp only [List.length_append, List.length_replicate, hhead]
    omega

end Sp2Module.Nso
