import Sp2Module.NsoImage
import Sp2Module.NsoRoundTrip
import Sp2Module.Throughout

/-!
# Sizes of the buffers

The lookups of an NSO check a range against the size that its segment declares, the accesses go to
the buffer. The buffer of a compressed segment has the declared size because the decoder is asked
for it; one that is stored as it is has the size of what the file holds. Writes keep both sizes, and
a resize assigns both unless the new buffer cannot be allocated.
-/

namespace Sp2Module.Nso

open BinaryReader NsoSegmentType

/-! ### The header of a file -/

/-- The word of a file at `off`. -/
def wordAt (stream : Bytes) (off : ℕ) : UInt32 := uintOfBytes (slice stream off 4)

def flagWord (stream : Bytes) : UInt32 := wordAt stream 0xC

def fileOffsetWord (stream : Bytes) (t : NsoSegmentType) : UInt32 :=
  wordAt stream (0x10 + 0x10 * t.index)

def decompressedSizeWord (stream : Bytes) (t : NsoSegmentType) : UInt32 :=
  wordAt stream (0x18 + 0x10 * t.index)

def compressedSizeWord (stream : Bytes) (t : NsoSegmentType) : UInt32 :=
  wordAt stream (0x60 + 4 * t.index)

/-- For each uncompressed segment the file holds as many bytes as the segment declares. -/
def SizesAgree (stream : Bytes) : Prop :=
  ∀ t, compressedBit (flagWord stream) t = false →
    min (compressedSizeWord stream t).toNat
      (stream.length - (fileOffsetWord stream t).toNat) = (decompressedSizeWord stream t).toNat

section Header

variable {codec : Lz4Codec AppError} {nso : Nso} {br br' : BinaryReader} {stream : Bytes}

theorem readUInt32_eq_slice {x : UInt32}
    (h : (readUInt32 : Reads AppError UInt32) br = .ok (x, br')) :
    br.position + 4 ≤ br.bytes.length ∧ x = uintOfBytes (slice br.bytes br.position 4) ∧
      br' = br.advance 4 := by
  have hle := readUInt32_eq_ok h
  have hread : (readUInt32 : Reads AppError UInt32) br = _ := map_of_ok (fillBuffer_of_le hle)
  rw [hread] at h
  cases h
  exact ⟨hle, rfl, rfl⟩

theorem readUInt64_advance {x : UInt64}
    (h : (readUInt64 : Reads AppError UInt64) br = .ok (x, br')) : br' = br.advance 8 := by
  by_cases hle : br.position + 8 ≤ br.bytes.length
  · rw [readUInt64_of_le hle] at h
    cases h
    rfl
  · rw [readUInt64_of_lt (by omega)] at h
    cases h

/-- A loop whose turns take `n` bytes each. -/
theorem forSegments_advance {α : Type} {f : NsoSegmentType → Reads AppError α}
    {a : NsoSegmentType → α} {n : ℕ} (hf : ∀ t b x b', f t b = .ok (x, b') → b' = b.advance n)
    (h : forSegments f br = .ok (a, br')) :
    (∀ t, ∃ b', f t (br.advance (n * t.index)) = .ok (a t, b')) ∧ br' = br.advance (3 * n) := by
  obtain ⟨x, b₁, hx, h⟩ := bind_eq_ok.mp h
  obtain ⟨y, b₂, hy, h⟩ := bind_eq_ok.mp h
  obtain ⟨z, b₃, hz, h⟩ := bind_eq_ok.mp h
  cases h
  obtain rfl := hf _ _ _ _ hx
  obtain rfl := hf _ _ _ _ hy
  obtain rfl := hf _ _ _ _ hz
  rw [advance_advance] at hz
  refine ⟨fun t => ?_, ?_⟩
  · cases t
    · exact ⟨_, hx⟩
    · exact ⟨_, by rw [show n * rodata.index = n by rw [index, mul_one]]; exact hy⟩
    · exact ⟨_, by rw [show n * rwdata.index = n + n by rw [index, mul_two]]; exact hz⟩
  · rw [advance_advance, advance_advance]
    congr 1
    ring

theorem forSegments_bytes {α : Type} {f : NsoSegmentType → Reads AppError α}
    {a : NsoSegmentType → α} (hf : ∀ t b x b', f t b = .ok (x, b') → b'.bytes = b.bytes)
    (h : forSegments f br = .ok (a, br')) :
    (∀ t, ∃ b b', b.bytes = br.bytes ∧ f t b = .ok (a t, b')) ∧ br'.bytes = br.bytes := by
  obtain ⟨x, b₁, hx, h⟩ := bind_eq_ok.mp h
  obtain ⟨y, b₂, hy, h⟩ := bind_eq_ok.mp h
  obtain ⟨z, b₃, hz, h⟩ := bind_eq_ok.mp h
  cases h
  have hb₁ := hf _ _ _ _ hx
  have hb₂ := (hf _ _ _ _ hy).trans hb₁
  refine ⟨fun t => ?_, (hf _ _ _ _ hz).trans hb₂⟩
  cases t
  exacts [⟨br, b₁, rfl, hx⟩, ⟨b₁, b₂, hb₁, hy⟩, ⟨b₂, _, hb₂, hz⟩]

theorem dataExtent_advance {extent : DataExtent} (h : dataExtent br = .ok (extent, br')) :
    br' = br.advance 8 := by
  obtain ⟨offset, b₁, h₁, h⟩ := bind_eq_ok.mp h
  obtain ⟨size, b₂, h₂, h⟩ := bind_eq_ok.mp h
  cases h
  obtain ⟨-, -, rfl⟩ := readUInt32_eq_slice h₁
  obtain ⟨-, -, rfl⟩ := readUInt32_eq_slice h₂
  rfl

theorem nsoSegment_eq_ok {flag : UInt32} {t : NsoSegmentType} {seg : NsoSegment}
    (h : nsoSegment flag t br = .ok (seg, br')) :
    seg.compressed = compressedBit flag t ∧ seg.fileOffset = wordAt br.bytes br.position ∧
      seg.decompressedSize = wordAt br.bytes (br.position + 8) ∧ br' = br.advance 16 := by
  obtain ⟨fileOffset, b₁, h₁, h⟩ := bind_eq_ok.mp h
  obtain ⟨address, b₂, h₂, h⟩ := bind_eq_ok.mp h
  obtain ⟨decompressedSize, b₃, h₃, h⟩ := bind_eq_ok.mp h
  obtain ⟨bssOrAlign, b₄, h₄, h⟩ := bind_eq_ok.mp h
  cases h
  obtain ⟨-, rfl, rfl⟩ := readUInt32_eq_slice h₁
  obtain ⟨-, -, rfl⟩ := readUInt32_eq_slice h₂
  obtain ⟨-, rfl, rfl⟩ := readUInt32_eq_slice h₃
  obtain ⟨-, -, rfl⟩ := readUInt32_eq_slice h₄
  exact ⟨rfl, rfl, rfl, rfl⟩

/-- What a parsed NSO has from the file: the words of the header, and buffers unpacked from the
bytes at the offsets. -/
theorem parseSegments_eq_ok (hb : nso.buildId.length = 0x20)
    (h : parseSegments codec (.ofBytes stream) = .ok (nso, br')) (t : NsoSegmentType) :
    (nso.segments t).compressed = compressedBit (flagWord stream) t ∧
      (nso.segments t).decompressedSize = decompressedSizeWord stream t ∧
      unpack codec (nso.segments t) (slice stream (fileOffsetWord stream t).toNat
        (compressedSizeWord stream t).toNat) = .ok (nso.segments t).rawData := by
  obtain ⟨magic, b₁, hmagic, h⟩ := bind_eq_ok.mp h
  dsimp only at h
  split_ifs at h with heq
  · obtain ⟨-, -, h, -⟩ := bind_eq_ok.mp h
    cases h
  obtain ⟨pad, b₂, hpad, h⟩ := bind_eq_ok.mp h
  obtain ⟨flag, b₃, hflag, h⟩ := bind_eq_ok.mp h
  obtain ⟨entries, b₄, hentries, h⟩ := bind_eq_ok.mp h
  obtain ⟨buildId, b₅, hbuildId, h⟩ := bind_eq_ok.mp h
  obtain ⟨sizes, b₆, hsizes, h⟩ := bind_eq_ok.mp h
  obtain ⟨skipped, b₇, hskip, h⟩ := bind_eq_ok.mp h
  obtain ⟨str, b₈, hstr, h⟩ := bind_eq_ok.mp h
  obtain ⟨sym, b₉, hsym, h⟩ := bind_eq_ok.mp h
  obtain ⟨sha, b₁₀, hsha, h⟩ := bind_eq_ok.mp h
  obtain ⟨raw, b₁₁, hraw, h⟩ := bind_eq_ok.mp h
  cases h
  change buildId.length = 0x20 at hb
  have hmagiclen : magic.length = 4 := by
    have hlen := congrArg String.length (not_not.mp heq)
    rwa [asciiGetString, String.length_ofList, List.length_map] at hlen
  obtain ⟨-, -, -, rfl⟩ := readBytes_eq_ok hmagic
  obtain rfl := readUInt64_advance hpad
  obtain ⟨-, rfl, rfl⟩ := readUInt32_eq_slice hflag
  obtain ⟨hentry, rfl⟩ := forSegments_advance (n := 16)
    (fun t b x b' hx => (nsoSegment_eq_ok hx).2.2.2) hentries
  obtain ⟨-, -, -, rfl⟩ := readBytes_eq_ok hbuildId
  obtain ⟨hsize, rfl⟩ := forSegments_advance (n := 4)
    (fun t b x b' hx => (readUInt32_eq_slice hx).2.2) hsizes
  cases hskip
  obtain rfl := dataExtent_advance hstr
  obtain rfl := dataExtent_advance hsym
  obtain ⟨-, hshaBytes⟩ := forSegments_bytes (fun t b x b' hx => by
    rw [(readBytes_eq_ok hx).2.2.2, bytes_advance]) hsha
  obtain ⟨hunpack, -⟩ := forSegments_bytes (fun t b x b' hx => (readRawData_eq_ok hx).2.2.1) hraw
  obtain ⟨e', hentry⟩ := hentry t
  obtain ⟨hcompressed, hoffset, hdecompressed, -⟩ := nsoSegment_eq_ok hentry
  obtain ⟨s', hsize⟩ := hsize t
  obtain ⟨-, hsize, -⟩ := readUInt32_eq_slice hsize
  obtain ⟨b, b', hbytes, hraw⟩ := hunpack t
  have hraw := (readRawData_eq_ok hraw).2.2.2
  simp only [advance_advance, bytes_advance, position_advance, bytes_ofBytes, position_ofBytes,
    hmagiclen, hb] at hcompressed hoffset hdecompressed hsize hshaBytes
  rw [hbytes, hshaBytes] at hraw
  have hoff : 0 + (4 + 8 + 4 + 16 * t.index) = 0x10 + 0x10 * t.index := by omega
  have hdec : 0x10 + 0x10 * t.index + 8 = 0x18 + 0x10 * t.index := by omega
  rw [hoff] at hoffset hdecompressed
  rw [hdec] at hdecompressed
  have hcomp : sizes t = compressedSizeWord stream t := by
    rw [hsize, compressedSizeWord, wordAt]
    congr 2
    omega
  refine ⟨hcompressed, hdecompressed, ?_⟩
  dsimp only at hraw
  rw [hoffset, hcomp] at hraw
  exact hraw

end Header

/-! ### Writes and resizes -/

/-- The calls that change the buffers. -/
inductive Edit where
  | writeNso (addr : UInt32) (data : Bytes)
  | resizeSegment (t : NsoSegmentType) (newSize : UInt32)

def Edit.run : Edit → EStateM Exception Nso Unit
  | .writeNso addr data => Nso.writeNso addr data
  | .resizeSegment t newSize => Nso.resizeSegment t newSize

/-- The NSO behind a call, whether it returns or throws. -/
def Edit.after (nso : Nso) (edit : Edit) : Nso :=
  match edit.run nso with
  | .ok _ nso' => nso'
  | .error _ nso' => nso'

/-- The new buffer of a resize can be allocated. -/
def Edit.Allocates : Edit → Prop
  | .writeNso _ _ => True
  | .resizeSegment _ newSize => newSize.toNat ≤ maxArrayLength

/-- Every buffer has its declared size, a read returns as many bytes as it was asked for, and the
checks of the source are all that refuses a read or a write. -/
structure BuffersMatch (nso : Nso) : Prop where
  sized : nso.Sized
  readNso_ok : ∀ addr (n : ℕ) b, nso.readNso addr n = .ok b → b.length = n
  readNso_error : ∀ addr (n : ℕ) x, nso.readNso addr n = .error x →
    ∃ message, x = .app (.nso message)
  writeNso_error : ∀ addr data x nso', writeNso addr data nso = .error x nso' →
    ∃ message, x = .app (.nso message)

/-- Buffers of the declared sizes that can be allocated. -/
def SizedArrays (nso : Nso) : Prop :=
  nso.Sized ∧ ∀ t, (nso.segments t).rawData.length ≤ maxArrayLength

section Edits

variable {nso : Nso}

/-- Also reads longer than an array are refused by the check of the size. -/
theorem SizedArrays.readNso_eq_error {addr : UInt32} {n : ℕ} {x : Exception}
    (h : nso.SizedArrays) (hread : nso.readNso addr n = .error x) :
    ∃ message, x = .app (.nso message) := by
  by_cases hmax : n ≤ maxArrayLength
  · exact Nso.readNso_eq_error h.1 hmax hread
  · unfold Nso.readNso at hread
    cases hseg : nso.getAddressSegment addr with
    | none =>
      simp only [hseg] at hread
      cases hread
      exact ⟨_, rfl⟩
    | some t =>
      have hc := getAddressSegment_eq_some hseg
      have hle := ((nso.segments t).contains_iff addr).mp hc
      have hsize := h.1 t
      have hlen := h.2 t
      simp only [hseg] at hread
      rw [hc.toNat_endAddress, if_pos (by omega)] at hread
      cases hread
      exact ⟨_, rfl⟩

theorem SizedArrays.buffersMatch (h : nso.SizedArrays) : nso.BuffersMatch where
  sized := h.1
  readNso_ok addr n b hb := by
    obtain ⟨t, off, -, -, -, hlen⟩ := locate_of_readNso h.1 hb
    exact hlen
  readNso_error addr n x hx := h.readNso_eq_error hx
  writeNso_error addr data x nso' hx := locate_eq_error h.1 (writeNso_eq_error hx).1

theorem SizedArrays.setSegment (h : nso.SizedArrays) {t : NsoSegmentType} {s : NsoSegment}
    (hs : s.rawData.length = s.decompressedSize.toNat) (hmax : s.rawData.length ≤ maxArrayLength) :
    (nso.setSegment t s).SizedArrays := by
  constructor
  all_goals
    intro u
    rw [segments_setSegment]
    split_ifs
  exacts [hs, h.1 u, hmax, h.2 u]

/-- A write keeps the sizes of the buffers, and one that throws changes nothing. -/
theorem SizedArrays.after_writeNso (h : nso.SizedArrays) (addr : UInt32) (data : Bytes) :
    (Edit.after nso (.writeNso addr data)).SizedArrays := by
  unfold Edit.after Edit.run
  dsimp only
  rw [writeNso_eq]
  cases nso.locate addr data.length with
  | error x => exact h
  | ok place =>
    obtain ⟨t, off⟩ := place
    have hlen : (overwrite (nso.segments t).rawData off data).length = _ :=
      length_overwrite (nso.segments t).rawData off data
    exact h.setSegment (hlen.trans (h.1 t)) (hlen.trans_le (h.2 t))

/-- A resize declares the new size; only one that returns provides a buffer of that size. -/
theorem SizedArrays.after_resizeSegment (h : nso.SizedArrays) (t : NsoSegmentType)
    (newSize : UInt32) : ((Edit.after nso (.resizeSegment t newSize)).Sized ↔
      newSize.toNat ≤ maxArrayLength) ∧ (newSize.toNat ≤ maxArrayLength →
        (Edit.after nso (.resizeSegment t newSize)).SizedArrays) := by
  unfold Edit.after Edit.run
  dsimp only
  unfold Nso.resizeSegment
  by_cases hmax : maxArrayLength < newSize.toNat
  · simp only [hmax, if_true]
    refine ⟨⟨fun hsized => ?_, fun hle => absurd hle (by omega)⟩, fun hle => absurd hle (by omega)⟩
    have hlen := hsized t
    have hold := h.2 t
    rw [segments_setSegment_same] at hlen
    dsimp only at hlen
    omega
  · simp only [hmax, if_false]
    have hnew : (nso.setSegment t { nso.segments t with
        decompressedSize := newSize
        rawData := overwrite (List.replicate newSize.toNat 0) 0 (nso.segments t).rawData
        }).SizedArrays := by
      have hlen : (overwrite (List.replicate newSize.toNat 0) 0 (nso.segments t).rawData).length =
          newSize.toNat := by
        rw [length_overwrite, List.length_replicate]
      exact h.setSegment hlen (hlen.trans_le (by omega))
    exact ⟨⟨fun _ => by omega, fun _ => hnew.1⟩, fun _ => hnew⟩

/-- Of an NSO with such buffers a run of calls keeps the sizes exactly when every resize can
allocate its buffer. -/
theorem SizedArrays.throughout_iff (h : nso.SizedArrays) {edits : List Edit} :
    Throughout Edit.after BuffersMatch nso edits ↔ ∀ edit ∈ edits, edit.Allocates := by
  refine Throughout.iff_forall (fun nso h => SizedArrays.buffersMatch h) ?_ ?_ h
  · intro nso edit h
    cases edit with
    | writeNso addr data =>
      exact ⟨fun _ => trivial, fun _ => (h.after_writeNso addr data).buffersMatch⟩
    | resizeSegment t newSize =>
      obtain ⟨hiff, hnext⟩ := h.after_resizeSegment t newSize
      exact ⟨fun hm => hiff.mp hm.sized, fun hle => (hnext hle).buffersMatch⟩
  · intro nso edit h hal
    cases edit with
    | writeNso addr data => exact h.after_writeNso addr data
    | resizeSegment t newSize => exact (h.after_resizeSegment t newSize).2 hal

/-- What has been parsed has buffers of the declared sizes exactly when the file holds that much. -/
theorem sized_parseFile_iff {codec : Lz4Codec AppError} (hc : codec.Lawful) {stream : Bytes}
    (h : parseFile codec stream = .ok nso) : nso.Sized ↔ SizesAgree stream := by
  obtain ⟨nso₀, br, hparse, hmod⟩ := parseFile_eq_ok h
  have hs := storable_of_parseSegments hc hparse
  have hsame : nso.segments = nso₀.segments := by
    obtain ⟨m, -, rfl⟩ | ⟨message, -, rfl⟩ := hmod <;> rfl
  refine forall_congr' fun t => ?_
  obtain ⟨hcompressed, hsize, hraw⟩ := parseSegments_eq_ok hs.buildId hparse t
  rw [hsame, ← hcompressed]
  cases hbit : (nso₀.segments t).compressed with
  | true => exact iff_of_true (hs.sized t hbit) (fun h => absurd h (by decide))
  | false =>
    rw [unpack, hbit] at hraw
    rw [← Except.ok.inj hraw, length_slice, hsize]
    exact ⟨fun h _ => h, fun h => h rfl⟩

/-- Buffers match their declared sizes throughout exactly when the file holds all bytes of what it
stores as it is, and no resize asks for more than an array takes. -/
theorem buffersMatch_iff {codec : Lz4Codec AppError} (hc : codec.Lawful) {stream : Bytes}
    (h : parseFile codec stream = .ok nso) (edits : List Edit) :
    Throughout Edit.after BuffersMatch nso edits ↔
      SizesAgree stream ∧ ∀ edit ∈ edits, edit.Allocates := by
  have hs := storable_of_parseFile hc h
  constructor
  · intro hall
    have hsized := hall.head.sized
    have harrays : nso.SizedArrays := ⟨hsized, hs.rawData⟩
    exact ⟨(sized_parseFile_iff hc h).mp hsized, harrays.throughout_iff.mp hall⟩
  · rintro ⟨hagree, hal⟩
    have harrays : nso.SizedArrays := ⟨(sized_parseFile_iff hc h).mpr hagree, hs.rawData⟩
    exact harrays.throughout_iff.mpr hal

end Edits

/-- A file with one byte of text, whose declared size is `decompressedSize`. -/
def textFile (decompressedSize : UInt32) : Bytes :=
  header { createNso [7] [] [] 0 with
    flag := 0
    segments := fun t => { (createNso [7] [] [] 0).segments t with
      fileOffset := 0x100
      decompressedSize := match t with
        | text => decompressedSize
        | _ => 0
      compressedSize := match t with
        | text => 1
        | _ => 0 } } ++ [7]

theorem parseFile_textFile (decompressedSize : UInt32)
    (h : decompressedSize = 1 ∨ decompressedSize = 2) :
    ∃ nso, parseFile Lz4Codec.literals (textFile decompressedSize) = .ok nso ∧
      nso.textSegment.rawData = [7] ∧ nso.textSegment.decompressedSize = decompressedSize := by
  have hparse : ((parseFile Lz4Codec.literals (textFile decompressedSize)).toOption.map fun nso =>
      (nso.textSegment.rawData, nso.textSegment.decompressedSize)) =
        some ([7], decompressedSize) := by
    rcases h with rfl | rfl <;> decide +kernel
  cases hfile : parseFile Lz4Codec.literals (textFile decompressedSize) with
  | error x =>
    rw [hfile] at hparse
    cases hparse
  | ok nso =>
    rw [hfile] at hparse
    have heq := Prod.mk.inj (Option.some.inj hparse)
    exact ⟨nso, rfl, heq.1, heq.2⟩

theorem sizesAgree_textFile : SizesAgree (textFile 1) := by
  intro t
  cases t <;> decide +kernel

theorem buffersMatch_textFile : ∃ nso, parseFile Lz4Codec.literals (textFile 1) = .ok nso ∧
    Throughout Edit.after BuffersMatch nso [.writeNso 0 [9], .resizeSegment text 4] := by
  obtain ⟨nso, hfile, -⟩ := parseFile_textFile 1 (Or.inl rfl)
  refine ⟨nso, hfile, (buffersMatch_iff Lz4Codec.lawful_literals hfile _).mpr
    ⟨sizesAgree_textFile, fun edit hedit => ?_⟩⟩
  simp only [List.mem_cons, List.not_mem_nil, or_false] at hedit
  rcases hedit with rfl | rfl
  · trivial
  · change (4 : UInt32).toNat ≤ maxArrayLength
    decide

/-- A file that declares two bytes of text and holds one, and a resize that cannot be carried out:
neither leaves a buffer of the declared size. -/
theorem not_buffersMatch_textFile :
    (∃ nso, parseFile Lz4Codec.literals (textFile 2) = .ok nso ∧
      ¬ Throughout Edit.after BuffersMatch nso []) ∧
    ∃ nso, parseFile Lz4Codec.literals (textFile 1) = .ok nso ∧
      ¬ Throughout Edit.after BuffersMatch nso [.resizeSegment text 0xFFFFFFFF] := by
  constructor
  · obtain ⟨nso, hfile, hraw, hsize⟩ := parseFile_textFile 2 (Or.inr rfl)
    refine ⟨nso, hfile, fun hall => ?_⟩
    have hlen : nso.textSegment.rawData.length = nso.textSegment.decompressedSize.toNat :=
      hall.head.sized text
    rw [hraw, hsize] at hlen
    revert hlen
    decide
  · obtain ⟨nso, hfile, -⟩ := parseFile_textFile 1 (Or.inl rfl)
    refine ⟨nso, hfile, fun hall => ?_⟩
    have hs := storable_of_parseFile Lz4Codec.lawful_literals hfile
    have harrays : nso.SizedArrays :=
      ⟨(sized_parseFile_iff Lz4Codec.lawful_literals hfile).mpr sizesAgree_textFile, hs.rawData⟩
    have hle := (harrays.after_resizeSegment text 0xFFFFFFFF).1.mp hall.2.head.sized
    revert hle
    decide

end Sp2Module.Nso
