import Sp2Module.NsoFile

/-!
# Writing an NSO and reading it again

`Storable` is what every NSO keeps that was read or created and then written to and resized. The
file of a storable NSO is read back as the NSO that writing it left behind.
-/

namespace Sp2Module.Nso

open BinaryReader NsoSegmentType

/-- What a file says about the segments agrees with their buffers. -/
structure Storable (nso : Nso) : Prop where
  buildId : nso.buildId.length = 0x20
  compressed : ∀ t, (nso.segments t).compressed = compressedBit nso.flag t
  decompressedSize : ∀ t, (nso.segments t).decompressedSize.toNat ≤ maxArrayLength
  rawData : ∀ t, (nso.segments t).rawData.length ≤ maxArrayLength
  sized : ∀ t, (nso.segments t).compressed = true →
    (nso.segments t).rawData.length = (nso.segments t).decompressedSize.toNat

/-! ### Reading what has been written -/

section Read

variable {codec : Lz4Codec AppError} {nso : Nso} {br : BinaryReader} {r : Bytes}

theorem toInt_toInt32_of_le {x : UInt32} (h : x.toNat ≤ maxArrayLength) :
    x.toInt32.toInt = x.toNat := by
  have hmax := maxArrayLength_lt
  rw [← UInt32.ofNat_toNat (x := x), UInt32.toInt32_ofNat', Int32.toInt_ofNat_of_lt (by omega),
    UInt32.ofNat_toNat]

theorem forSegments_of_rest {α : Type} {f : NsoSegmentType → Reads AppError α}
    {word : NsoSegmentType → Bytes} {a : NsoSegmentType → α} {n : ℕ}
    (hf : ∀ t br r, br.rest = word t ++ r → f t br = .ok (a t, br.advance n))
    (hn : ∀ t, (word t).length = n) (h : br.rest = segmentTable word ++ r) :
    forSegments f br = .ok (a, br.advance (3 * n)) ∧ (br.advance (3 * n)).rest = r := by
  simp only [segmentTable, List.append_assoc] at h
  have h1 := rest_advance h (hn text)
  have h2 := rest_advance h1 (hn rodata)
  have h3 := rest_advance h2 (hn rwdata)
  have hadv : ((br.advance n).advance n).advance n = br.advance (3 * n) := by
    simp only [advance_advance]
    congr 1
    omega
  rw [hadv] at h3
  refine ⟨?_, h3⟩
  unfold forSegments
  rw [bind_of_ok (hf text _ _ h), bind_of_ok (hf rodata _ _ h1), bind_of_ok (hf rwdata _ _ h2),
    pure_apply, hadv, ofSegments_self]

theorem nsoSegment_of_rest {flag : UInt32} {t : NsoSegmentType} {seg : NsoSegment}
    (h : br.rest = tableEntry seg ++ r) :
    nsoSegment flag t br = .ok (⟨[], compressedBit flag t, seg.fileOffset, seg.address,
      seg.decompressedSize, 0, seg.bssOrAlign, none⟩, br.advance 16) := by
  simp only [tableEntry, List.append_assoc] at h
  have h1 := rest_advance h (length_uintBytes _)
  have h2 := rest_advance h1 (length_uintBytes _)
  have h3 := rest_advance h2 (length_uintBytes _)
  unfold nsoSegment
  rw [bind_of_ok (readUInt32_of_rest h), bind_of_ok (readUInt32_of_rest h1),
    bind_of_ok (readUInt32_of_rest h2), bind_of_ok (readUInt32_of_rest h3)]
  rfl

theorem dataExtent_of_rest {extent : DataExtent} (h : br.rest = extentBytes extent ++ r) :
    dataExtent br = .ok (extent, br.advance 8) ∧ (br.advance 8).rest = r := by
  simp only [extentBytes, List.append_assoc] at h
  have h1 := rest_advance h (length_uintBytes _)
  have h2 := rest_advance h1 (length_uintBytes _)
  refine ⟨?_, h2⟩
  unfold dataExtent
  rw [bind_of_ok (readUInt32_of_rest h), bind_of_ok (readUInt32_of_rest h1)]
  rfl

/-- The buffer a stored segment stands for. -/
def unpack (codec : Lz4Codec AppError) (seg : NsoSegment) (comp : Bytes) : Except Exception Bytes :=
  if seg.compressed then codec.decode comp seg.decompressedSize.toInt32.toInt else .ok comp

/-- The buffer of a segment is unpacked from what the file holds at its offset. -/
theorem readRawData_eq (codec : Lz4Codec AppError) (br : BinaryReader) {seg : NsoSegment}
    (hsize : seg.decompressedSize.toNat ≤ maxArrayLength)
    (hcount : seg.compressedSize.toNat ≤ maxArrayLength) :
    ∃ p, readRawData codec seg br =
      (unpack codec seg (slice br.bytes seg.fileOffset.toNat seg.compressedSize.toNat)).map
        fun raw => (raw, { br with position := p }) := by
  refine ⟨seg.fileOffset.toNat +
    (slice br.bytes seg.fileOffset.toNat seg.compressedSize.toNat).length, ?_⟩
  unfold readRawData
  rw [if_neg (by omega), toInt_toInt32_of_le hcount]
  dsimp only
  rw [bind_of_ok (setPosition_natCast _), bind_of_ok (readBytes_natCast hcount)]
  dsimp only [unpack]
  by_cases hcompressed : seg.compressed = true
  · rw [if_pos hcompressed, if_pos hcompressed]
    cases codec.decode _ seg.decompressedSize.toInt32.toInt <;> rfl
  · rw [if_neg hcompressed, if_neg hcompressed]
    rfl

theorem length_stored_le (hc : codec.Lawful) {seg : NsoSegment} {comp : Bytes}
    (hraw : seg.rawData.length ≤ maxArrayLength) (hcomp : stored codec seg = .ok comp) :
    comp.length ≤ maxArrayLength := by
  unfold stored at hcomp
  split_ifs at hcomp with hcompressed
  · exact hc.length_encode _ comp hcomp
  · cases hcomp
    exact hraw

theorem unpack_stored (hc : codec.Lawful) {seg : NsoSegment} {comp : Bytes}
    (hsize : seg.decompressedSize.toNat ≤ maxArrayLength)
    (hraw : seg.rawData.length ≤ maxArrayLength)
    (hsized : seg.compressed = true → seg.rawData.length = seg.decompressedSize.toNat)
    (hcomp : stored codec seg = .ok comp) : unpack codec seg comp = .ok seg.rawData := by
  unfold stored at hcomp
  unfold unpack
  split_ifs at hcomp ⊢ with hcompressed
  · have hdecode := hc.decode_encode seg.rawData comp hraw hcomp
    rwa [hsized hcompressed, ← toInt_toInt32_of_le hsize] at hdecode
  · exact hcomp.symm

/-- The loop over the stored segments. -/
theorem forSegments_readRawData {seg : NsoSegmentType → NsoSegment} {raw : NsoSegmentType → Bytes}
    (hsize : ∀ t, (seg t).decompressedSize.toNat ≤ maxArrayLength)
    (hcount : ∀ t, (seg t).compressedSize.toNat ≤ maxArrayLength) :
    (∃ br', forSegments (fun t => readRawData codec (seg t)) br = .ok (raw, br')) ↔
      ∀ t, unpack codec (seg t)
        (slice br.bytes (seg t).fileOffset.toNat (seg t).compressedSize.toNat) = .ok (raw t) := by
  have hread : ∀ t (b b' : BinaryReader) x, b.bytes = br.bytes →
      readRawData codec (seg t) b = .ok (x, b') → b'.bytes = br.bytes ∧ unpack codec (seg t)
        (slice br.bytes (seg t).fileOffset.toNat (seg t).compressedSize.toNat) = .ok x := by
    intro t b b' x hb h
    obtain ⟨p, hp⟩ := readRawData_eq codec b (hsize t) (hcount t)
    rw [hp, hb] at h
    cases hu : unpack codec (seg t)
        (slice br.bytes (seg t).fileOffset.toNat (seg t).compressedSize.toNat) with
    | error e => rw [hu] at h; cases h
    | ok raw => rw [hu] at h; cases h; exact ⟨rfl, rfl⟩
  constructor
  · rintro ⟨br', h⟩
    obtain ⟨x, b₁, hx, h⟩ := bind_eq_ok.mp h
    obtain ⟨y, b₂, hy, h⟩ := bind_eq_ok.mp h
    obtain ⟨z, b₃, hz, h⟩ := bind_eq_ok.mp h
    cases h
    obtain ⟨hb₁, hux⟩ := hread text br b₁ x rfl hx
    obtain ⟨hb₂, huy⟩ := hread rodata b₁ b₂ y hb₁ hy
    obtain ⟨-, huz⟩ := hread rwdata b₂ _ z hb₂ hz
    intro t
    cases t
    exacts [hux, huy, huz]
  · intro h
    have hok : ∀ t b, b.bytes = br.bytes → ∃ b', readRawData codec (seg t) b = .ok (raw t, b') ∧
        b'.bytes = br.bytes := by
      intro t b hb
      obtain ⟨p, hp⟩ := readRawData_eq codec b (hsize t) (hcount t)
      rw [hb, h t] at hp
      exact ⟨_, hp, rfl⟩
    obtain ⟨b₁, h1, hb₁⟩ := hok text br rfl
    obtain ⟨b₂, h2, hb₂⟩ := hok rodata b₁ hb₁
    obtain ⟨b₃, h3, -⟩ := hok rwdata b₂ hb₂
    refine ⟨b₃, ?_⟩
    unfold forSegments
    rw [bind_of_ok h1, bind_of_ok h2, bind_of_ok h3, pure_apply, ofSegments_self]

/-- Behind the header of `nso` the reader goes on with the segments of `nso`. -/
theorem parseSegments_eq (codec : Lz4Codec AppError) {file : Bytes}
    (hb : nso.buildId.length = 0x20)
    (hc : ∀ t, (nso.segments t).compressed = compressedBit nso.flag t)
    (hsha : ∀ t, (nso.segments t).sha256 = some (computeHash (nso.segments t).rawData))
    (hfile : file = nso.header ++ r) :
    ∃ b, b.bytes = file ∧ parseSegments codec (.ofBytes file) =
      (forSegments (fun t => readRawData codec { nso.segments t with rawData := [] }) >>= fun raw =>
        pure { nso with
          segments := fun t => { nso.segments t with rawData := raw t }
          modSection := none }) b := by
  have hskip : (List.replicate 0x24 (0 : UInt8)).length = 0x24 := List.length_replicate
  have h : (ofBytes file).rest = _ := hfile
  simp only [header, List.append_assoc] at h
  have h1 := rest_advance h length_headerMagic
  have h2 := rest_advance h1 (length_ulongBytes _)
  have h3 := rest_advance h2 (length_uintBytes _)
  obtain ⟨hentries, h4⟩ := forSegments_of_rest (f := nsoSegment nso.flag) (n := 16)
    (fun t br r hr => nsoSegment_of_rest hr) (fun t => rfl) h3
  have h5 := rest_advance h4 hb
  obtain ⟨hsizes, h6⟩ := forSegments_of_rest (f := fun _ => readUInt32) (n := 4)
    (fun t br r hr => readUInt32_of_rest hr) (fun t => length_uintBytes _) h5
  have h7 := rest_advance h6 hskip
  obtain ⟨hstr, h8⟩ := dataExtent_of_rest h7
  obtain ⟨hsym, h9⟩ := dataExtent_of_rest h8
  obtain ⟨hhash, -⟩ := forSegments_of_rest (f := fun _ => readBytes 0x20) (n := 0x20)
    (fun t br r hr => readBytes_of_rest hr (Sha256.length_computeHash _) (by decide))
    (fun t => Sha256.length_computeHash _) h9
  have hpad : (readUInt64 : Reads AppError UInt64) _ = _ := readUInt64_of_rest h1
  have hbuildId : (readBytes 0x20 : Reads AppError Bytes) _ = _ :=
    readBytes_of_rest h4 hb (by decide)
  unfold parseSegments
  rw [readMagic_of_rest _ h length_headerMagic (by decide), bind_of_ok hpad,
    bind_of_ok (readUInt32_of_rest h2), bind_of_ok hentries, bind_of_ok hbuildId, bind_of_ok hsizes]
  rw [bind_of_ok (x := skip 0x24) rfl, bind_of_ok hstr, bind_of_ok hsym, bind_of_ok hhash]
  generalize hadv : BinaryReader.advance _ (3 * 0x20) = b
  refine ⟨b, ?_, ?_⟩
  · rw [← hadv]
    rfl
  · simp only [← hc, ← hsha]

/-- A file that starts with the header of `nso` is read as `nso`, with the buffers unpacked from
what stands at its offsets. -/
theorem parseSegments_header_iff {file : Bytes} {nso₂ : Nso} (hb : nso.buildId.length = 0x20)
    (hc : ∀ t, (nso.segments t).compressed = compressedBit nso.flag t)
    (hsha : ∀ t, (nso.segments t).sha256 = some (computeHash (nso.segments t).rawData))
    (hsize : ∀ t, (nso.segments t).decompressedSize.toNat ≤ maxArrayLength)
    (hcount : ∀ t, (nso.segments t).compressedSize.toNat ≤ maxArrayLength)
    (hfile : file = nso.header ++ r) :
    (∃ br, parseSegments codec (.ofBytes file) = .ok (nso₂, br)) ↔
      ∃ raw : NsoSegmentType → Bytes,
        (∀ t, unpack codec (nso.segments t) (slice file (nso.segments t).fileOffset.toNat
          (nso.segments t).compressedSize.toNat) = .ok (raw t)) ∧
        nso₂ = { nso with
          segments := fun t => { nso.segments t with rawData := raw t }
          modSection := none } := by
  obtain ⟨b, rfl, hparse⟩ := parseSegments_eq codec hb hc hsha hfile
  rw [hparse]
  constructor
  · rintro ⟨br, h⟩
    obtain ⟨raw, b₁, hraw, h⟩ := bind_eq_ok.mp h
    cases h
    exact ⟨raw, (forSegments_readRawData hsize hcount).mp ⟨_, hraw⟩, rfl⟩
  · rintro ⟨raw, hraw, rfl⟩
    have hloop : ∃ br, forSegments
        (fun t => readRawData codec { nso.segments t with rawData := [] }) b = .ok (raw, br) :=
      (forSegments_readRawData hsize hcount).mpr hraw
    obtain ⟨br, hbr⟩ := hloop
    exact ⟨br, bind_of_ok hbr⟩

section Written

variable (hcodec : codec.Lawful) (hs : nso.Storable) {comp : NsoSegmentType → Bytes}
  (hcomp : ∀ t, stored codec (nso.segments t) = .ok (comp t))
include hcodec hs hcomp

theorem Storable.toNat_compressedSize (t : NsoSegmentType) :
    ((nso.written comp).segments t).compressedSize.toNat = (comp t).length ∧
      (comp t).length ≤ maxArrayLength := by
  have hmax := maxArrayLength_lt
  have hle := length_stored_le hcodec (hs.rawData t) (hcomp t)
  exact ⟨UInt32.toNat_ofNat_of_lt' (by show _ < 2 ^ 32; omega), hle⟩

/-- A written file is read as the NSO that writing it leaves behind, up to the buffers, which are
unpacked from what stands at the 32-bit offsets. -/
theorem Storable.parseSegments_storedFile_iff {nso₂ : Nso} :
    (∃ br, parseSegments codec (.ofBytes (nso.storedFile comp)) = .ok (nso₂, br)) ↔
      ∃ raw : NsoSegmentType → Bytes,
        (∀ t, unpack codec (nso.segments t) (slice (nso.storedFile comp)
          (fileOffsets nso.firstOffset comp t).toNat (comp t).length) = .ok (raw t)) ∧
        nso₂ = { nso.written comp with
          segments := fun t => { (nso.written comp).segments t with rawData := raw t }
          modSection := none } := by
  have hsize := hs.toNat_compressedSize hcodec hcomp
  have hfile : nso.storedFile comp = (nso.written comp).header ++ _ := rfl
  refine (parseSegments_header_iff (show (nso.written comp).buildId.length = 0x20 from hs.buildId)
    hs.compressed (fun t => rfl) hs.decompressedSize
    (fun t => (hsize t).1.trans_le (hsize t).2) hfile).trans ?_
  simp only [(hsize _).1]
  rfl

/-- The file of a storable NSO is read as the NSO that writing it leaves behind. -/
theorem Storable.parseSegments_written (hlen : (nso.storedFile comp).length < 2 ^ 32) :
    ∃ br, parseSegments codec (.ofBytes (nso.storedFile comp)) =
      .ok ({ nso.written comp with modSection := none }, br) := by
  refine (hs.parseSegments_storedFile_iff hcodec hcomp).mpr
    ⟨fun t => (nso.segments t).rawData, fun t => ?_, rfl⟩
  rw [slice_storedFile hs.buildId hlen]
  exact unpack_stored hcodec (hs.decompressedSize t) (hs.rawData t) (hs.sized t) (hcomp t)

end Written

end Read

/-! ### Storable NSOs -/

section Storable

variable {codec : Lz4Codec AppError} {nso nso' : Nso} {br br' : BinaryReader}

theorem forSegments_eq_ok {α : Type} {f : NsoSegmentType → Reads AppError α}
    {a : NsoSegmentType → α} (h : forSegments f br = .ok (a, br')) :
    (∃ b', f text br = .ok (a text, b')) ∧ ∀ t, ∃ b b', f t b = .ok (a t, b') := by
  obtain ⟨x, b₁, hx, h⟩ := bind_eq_ok.mp h
  obtain ⟨y, b₂, hy, h⟩ := bind_eq_ok.mp h
  obtain ⟨z, b₃, hz, h⟩ := bind_eq_ok.mp h
  cases h
  refine ⟨⟨b₁, hx⟩, fun t => ?_⟩
  cases t
  exacts [⟨br, b₁, hx⟩, ⟨b₁, b₂, hy⟩, ⟨b₂, _, hz⟩]

theorem toInt_toInt32_of_nonneg {x : UInt32} (h : 0 ≤ x.toInt32.toInt) :
    x.toInt32.toInt = x.toNat := by
  have hlt := x.toNat_lt
  have hint : x.toInt32.toInt = (x.toNat : ℤ).bmod (2 ^ 32) := by
    nth_rewrite 1 [← UInt32.ofNat_toNat (x := x)]
    rw [UInt32.toInt32_ofNat', Int32.toInt_ofNat']
    rfl
  rw [hint, Int.bmod_def] at h ⊢
  split_ifs at h ⊢ <;> omega

/-- A buffer is unpacked from what the file holds at its offset. -/
theorem readRawData_eq_ok {seg : NsoSegment} {raw : Bytes}
    (h : readRawData codec seg br = .ok (raw, br')) :
    seg.decompressedSize.toNat ≤ maxArrayLength ∧ seg.compressedSize.toNat ≤ maxArrayLength ∧
      br'.bytes = br.bytes ∧ unpack codec seg
        (slice br.bytes seg.fileOffset.toNat seg.compressedSize.toNat) = .ok raw := by
  have hbound : seg.decompressedSize.toNat ≤ maxArrayLength ∧
      seg.compressedSize.toNat ≤ maxArrayLength := by
    unfold readRawData at h
    by_cases hsize : maxArrayLength < seg.decompressedSize.toNat
    · rw [if_pos hsize] at h
      cases h
    rw [if_neg hsize] at h
    obtain ⟨-, b₁, -, h⟩ := bind_eq_ok.mp h
    obtain ⟨comp, b₂, hcomp, -⟩ := bind_eq_ok.mp h
    obtain ⟨hneg, hmax, -, -⟩ := readBytes_eq_ok hcomp
    rw [toInt_toInt32_of_nonneg hneg] at hmax
    exact ⟨by omega, by omega⟩
  obtain ⟨p, hp⟩ := readRawData_eq codec br hbound.1 hbound.2
  rw [hp] at h
  obtain ⟨raw', hraw, heq⟩ := except_map_eq_ok.mp h
  cases heq
  exact ⟨hbound.1, hbound.2, rfl, hraw⟩

/-- A decoder returns what it is asked for. -/
theorem length_of_unpack (hc : codec.Lawful) {seg : NsoSegment} {comp raw : Bytes}
    (hsize : seg.decompressedSize.toNat ≤ maxArrayLength) (hcompressed : seg.compressed = true)
    (h : unpack codec seg comp = .ok raw) : raw.length = seg.decompressedSize.toNat := by
  rw [unpack, if_pos hcompressed] at h
  have hlen := hc.length_decode _ _ _ h
  rw [toInt_toInt32_of_le hsize] at hlen
  omega

theorem length_of_readRawData (hc : codec.Lawful) {seg : NsoSegment} {raw : Bytes}
    (h : readRawData codec seg br = .ok (raw, br')) :
    seg.decompressedSize.toNat ≤ maxArrayLength ∧ raw.length ≤ maxArrayLength ∧
      (seg.compressed = true → raw.length = seg.decompressedSize.toNat) := by
  obtain ⟨hsize, hcount, -, hraw⟩ := readRawData_eq_ok h
  refine ⟨hsize, ?_, fun hcompressed => length_of_unpack hc hsize hcompressed hraw⟩
  by_cases hcompressed : seg.compressed = true
  · exact (length_of_unpack hc hsize hcompressed hraw).le.trans hsize
  · rw [unpack, if_neg hcompressed, Except.ok.injEq] at hraw
    rw [← hraw, length_slice]
    omega

theorem storable_of_parseSegments (hc : codec.Lawful)
    (h : parseSegments codec br = .ok (nso, br')) : nso.Storable := by
  obtain ⟨magic, b₁, -, h⟩ := bind_eq_ok.mp h
  dsimp only at h
  split_ifs at h with hmagic
  · obtain ⟨-, -, h, -⟩ := bind_eq_ok.mp h
    cases h
  obtain ⟨-, b₂, -, h⟩ := bind_eq_ok.mp h
  obtain ⟨flag, b₃, -, h⟩ := bind_eq_ok.mp h
  obtain ⟨entries, b₄, hentries, h⟩ := bind_eq_ok.mp h
  obtain ⟨buildId, b₅, hbuildId, h⟩ := bind_eq_ok.mp h
  obtain ⟨sizes, b₆, hsizes, h⟩ := bind_eq_ok.mp h
  obtain ⟨-, b₇, -, h⟩ := bind_eq_ok.mp h
  obtain ⟨str, b₈, -, h⟩ := bind_eq_ok.mp h
  obtain ⟨sym, b₉, -, h⟩ := bind_eq_ok.mp h
  obtain ⟨sha, b₁₀, -, h⟩ := bind_eq_ok.mp h
  obtain ⟨raw, b₁₁, hraw, h⟩ := bind_eq_ok.mp h
  cases h
  have hcompressed : ∀ t, (entries t).compressed = compressedBit flag t := by
    intro t
    obtain ⟨b, b', hentry⟩ := (forSegments_eq_ok hentries).2 t
    obtain ⟨_, _, -, hentry⟩ := bind_eq_ok.mp hentry
    obtain ⟨_, _, -, hentry⟩ := bind_eq_ok.mp hentry
    obtain ⟨_, _, -, hentry⟩ := bind_eq_ok.mp hentry
    obtain ⟨_, _, -, hentry⟩ := bind_eq_ok.mp hentry
    have heq := congrArg (fun r => r.map fun p => p.1.compressed) hentry
    exact (Except.ok.inj heq).symm
  have hsegment : ∀ t, (entries t).decompressedSize.toNat ≤ maxArrayLength ∧
      (raw t).length ≤ maxArrayLength ∧ ((entries t).compressed = true →
        (raw t).length = (entries t).decompressedSize.toNat) := by
    intro t
    obtain ⟨b, b', hraw⟩ := (forSegments_eq_ok hraw).2 t
    have hread := length_of_readRawData hc hraw
    exact hread
  refine ⟨?_, hcompressed, fun t => (hsegment t).1, fun t => (hsegment t).2.1,
    fun t => (hsegment t).2.2⟩
  -- a short build id would leave nothing for the table of stored sizes
  change buildId.length = 0x20
  obtain ⟨b', hsize⟩ := (forSegments_eq_ok hsizes).1
  have hroom := readUInt32_eq_ok hsize
  obtain ⟨-, -, hid, rfl⟩ := readBytes_eq_ok hbuildId
  rw [position_advance, bytes_advance] at hroom
  have hlen := congrArg List.length hid
  rw [length_slice] at hlen
  change buildId.length = min 0x20 _ at hlen
  omega

theorem storable_of_parseFile (hc : codec.Lawful) {stream : Bytes}
    (h : parseFile codec stream = .ok nso) : nso.Storable := by
  obtain ⟨nso₀, br, hparse, ⟨m, -, rfl⟩ | ⟨message, -, rfl⟩⟩ := parseFile_eq_ok h
  all_goals
    have hs := storable_of_parseSegments hc hparse
    exact ⟨hs.buildId, hs.compressed, hs.decompressedSize, hs.rawData, hs.sized⟩

theorem storable_createNso {textData rodataData rwdataData : Bytes} (bssSize : UInt32)
    (ht : textData.length ≤ maxArrayLength) (hro : rodataData.length ≤ maxArrayLength)
    (hrw : rwdataData.length ≤ maxArrayLength) :
    (createNso textData rodataData rwdataData bssSize).Storable := by
  have hmax : maxArrayLength < UInt32.size := maxArrayLength_lt.trans (by decide)
  have hseg : ∀ t, ((createNso textData rodataData rwdataData bssSize).segments t).rawData.length ≤
        maxArrayLength ∧
      ((createNso textData rodataData rwdataData bssSize).segments t).decompressedSize.toNat =
        ((createNso textData rodataData rwdataData bssSize).segments t).rawData.length := by
    intro t
    cases t
    · exact ⟨ht, UInt32.toNat_ofNat_of_lt' (ht.trans_lt hmax)⟩
    · exact ⟨hro, UInt32.toNat_ofNat_of_lt' (hro.trans_lt hmax)⟩
    · exact ⟨hrw, UInt32.toNat_ofNat_of_lt' (hrw.trans_lt hmax)⟩
  refine ⟨List.length_replicate, ?_, ?_, fun t => (hseg t).1, fun t _ => (hseg t).2.symm⟩
  · have hbit : ∀ t, compressedBit 0x1F t = true := by
      intro t
      cases t <;> decide
    intro t
    cases t <;> exact (hbit _).symm
  · intro t
    rw [(hseg t).2]
    exact (hseg t).1

/-- Replacing a segment by one that is stored the same way keeps an NSO storable. -/
theorem Storable.setSegment (h : nso.Storable) {t : NsoSegmentType} {s : NsoSegment}
    (hc : s.compressed = (nso.segments t).compressed)
    (hd : s.decompressedSize.toNat ≤ maxArrayLength) (hr : s.rawData.length ≤ maxArrayLength)
    (hs : s.compressed = true → s.rawData.length = s.decompressedSize.toNat) :
    (nso.setSegment t s).Storable := by
  constructor
  · exact h.buildId
  all_goals
    intro u
    rw [segments_setSegment]
    split_ifs with hu
  · rw [hc, h.compressed t, hu, flag_setSegment]
  · exact h.compressed u
  · exact hd
  · exact h.decompressedSize u
  · exact hr
  · exact h.rawData u
  · exact hs
  · exact h.sized u

theorem Storable.writeNso (h : nso.Storable) {addr : UInt32} {data : Bytes}
    (hw : Nso.writeNso addr data nso = .ok () nso') : nso'.Storable := by
  rw [writeNso_eq] at hw
  cases hl : nso.locate addr data.length with
  | error x => rw [hl] at hw; cases hw
  | ok p =>
    obtain ⟨t, off⟩ := p
    rw [hl] at hw
    cases hw
    have hraw := length_overwrite (nso.segments t).rawData off data
    refine h.setSegment rfl (h.decompressedSize t) ?_ ?_
    · exact hraw.trans_le (h.rawData t)
    · exact fun hc => hraw.trans (h.sized t hc)

theorem Storable.resizeSegment (h : nso.Storable) {t : NsoSegmentType} {newSize : UInt32}
    (hr : Nso.resizeSegment t newSize nso = .ok () nso') : nso'.Storable := by
  unfold Nso.resizeSegment at hr
  by_cases hmax : maxArrayLength < newSize.toNat
  · simp only [hmax, if_true, reduceCtorEq] at hr
  · simp only [hmax, if_false] at hr
    cases hr
    have hlen : (overwrite (List.replicate newSize.toNat 0) 0 (nso.segments t).rawData).length =
        newSize.toNat := by
      rw [length_overwrite, List.length_replicate]
    refine h.setSegment rfl (by dsimp only; omega) ?_ fun _ => hlen
    exact hlen.trans_le (by omega)

theorem Storable.setBssOrAlign (h : nso.Storable) (t : NsoSegmentType) (bssOrAlign : UInt32) :
    (nso.setBssOrAlign t bssOrAlign).Storable :=
  h.setSegment rfl (h.decompressedSize t) (h.rawData t) (h.sized t)

theorem Storable.writeModHeader (h : nso.Storable) {m : ModHeader}
    (hw : m.write nso = .ok () nso') : nso'.Storable := by
  obtain ⟨_, nso₁, hpointer, hheader⟩ := estate_bind_eq_ok.mp hw
  exact (h.writeNso hpointer).writeNso hheader

/-- The NSOs that come out of reading or creating one and any edits of it. -/
inductive Reachable (codec : Lz4Codec AppError) : Nso → Prop where
  | parseFile {stream : Bytes} {nso : Nso} (h : parseFile codec stream = .ok nso) :
      Reachable codec nso
  | createNso {textData rodataData rwdataData : Bytes} (bssSize : UInt32)
      (ht : textData.length ≤ maxArrayLength) (hro : rodataData.length ≤ maxArrayLength)
      (hrw : rwdataData.length ≤ maxArrayLength) :
      Reachable codec (createNso textData rodataData rwdataData bssSize)
  | writeNso {nso nso' : Nso} {addr : UInt32} {data : Bytes} (h : Reachable codec nso)
      (hw : Nso.writeNso addr data nso = .ok () nso') : Reachable codec nso'
  | resizeSegment {nso nso' : Nso} {t : NsoSegmentType} {newSize : UInt32}
      (h : Reachable codec nso) (hr : Nso.resizeSegment t newSize nso = .ok () nso') :
      Reachable codec nso'
  | setBssOrAlign {nso : Nso} (h : Reachable codec nso) (t : NsoSegmentType)
      (bssOrAlign : UInt32) : Reachable codec (nso.setBssOrAlign t bssOrAlign)

theorem Reachable.storable (hc : codec.Lawful) (h : Reachable codec nso) : nso.Storable := by
  induction h with
  | parseFile h => exact storable_of_parseFile hc h
  | createNso bssSize ht hro hrw => exact storable_createNso bssSize ht hro hrw
  | writeNso _ hw ih => exact ih.writeNso hw
  | resizeSegment _ hr ih => exact ih.resizeSegment hr
  | setBssOrAlign _ t bssOrAlign ih => exact ih.setBssOrAlign t bssOrAlign

end Storable

/-! ### The round trip -/

section RoundTrip

variable {codec : Lz4Codec AppError} {nso nso' : Nso} {file : Bytes}

/-- The header fields and segments of `nso'` are those of `nso`, with the hashes of the buffers. -/
structure SameContent (nso nso' : Nso) : Prop where
  flag : nso'.flag = nso.flag
  buildId : nso'.buildId = nso.buildId
  dynamicStringTable : nso'.dynamicStringTable = nso.dynamicStringTable
  dynamicSymbolTable : nso'.dynamicSymbolTable = nso.dynamicSymbolTable
  address : ∀ t, (nso'.segments t).address = (nso.segments t).address
  decompressedSize : ∀ t, (nso'.segments t).decompressedSize = (nso.segments t).decompressedSize
  bssOrAlign : ∀ t, (nso'.segments t).bssOrAlign = (nso.segments t).bssOrAlign
  compressed : ∀ t, (nso'.segments t).compressed = (nso.segments t).compressed
  rawData : ∀ t, (nso'.segments t).rawData = (nso.segments t).rawData
  sha256 : ∀ t, (nso'.segments t).sha256 = some (computeHash (nso.segments t).rawData)

theorem sameContent_written (nso : Nso) (comp : NsoSegmentType → Bytes) (m : Option ModHeader) :
    nso.SameContent { nso.written comp with modSection := m } := by
  constructor <;> intros <;> rfl

/-- An NSO that has been written is written the same way again. -/
theorem writeFile_written {comp : NsoSegmentType → Bytes} (m : Option ModHeader)
    (hcomp : ∀ t, stored codec (nso.segments t) = .ok (comp t)) :
    writeFile codec { nso.written comp with modSection := m } =
      .ok (writeSegments (nso.written comp).header
        (all.map fun t => (((nso.written comp).segments t).fileOffset, comp t)))
        { nso.written comp with modSection := m } := by
  have hidem : Nso.written { nso.written comp with modSection := m } comp =
      { nso.written comp with modSection := m } := by
    refine segments_ext rfl rfl ?_ rfl rfl rfl
    intro t
    have hoff : Nso.firstOffset { nso.written comp with modSection := m } = nso.firstOffset :=
      firstOffset_written nso comp
    change NsoSegment.mk _ _
      (fileOffsets (Nso.firstOffset { nso.written comp with modSection := m }) comp t) _ _ _ _ _ = _
    rw [hoff]
    rfl
  refine writeFile_eq_ok_iff.mpr ⟨comp, ?_, hidem.symm, ?_⟩
  · intro t
    rw [← hcomp t]
    exact stored_congr rfl rfl
  · rw [hidem]
    rfl

theorem writeFile_again (hw : writeFile codec nso = .ok file nso') :
    writeFile codec nso' = .ok file nso' := by
  obtain ⟨comp, hcomp, rfl, rfl⟩ := writeFile_eq_ok_iff.mp hw
  exact writeFile_written nso.modSection hcomp

/-- Writing a file keeps an NSO storable. -/
theorem Storable.writeFile (h : nso.Storable) (hw : Nso.writeFile codec nso = .ok file nso') :
    nso'.Storable := by
  obtain ⟨comp, -, rfl, -⟩ := writeFile_eq_ok_iff.mp hw
  exact ⟨h.buildId, h.compressed, h.decompressedSize, h.rawData, h.sized⟩

/-- What writing an edited NSO produces is read back with the same content, and writing that gives
the same file. -/
theorem parseSegments_writeFile (hc : codec.Lawful) (hr : Reachable codec nso)
    (hw : writeFile codec nso = .ok file nso') (hlen : file.length < 2 ^ 32) :
    ∃ nso₂ br, parseSegments codec (.ofBytes file) = .ok (nso₂, br) ∧ nso.SameContent nso₂ ∧
      ∃ nso₃, writeFile codec nso₂ = .ok file nso₃ := by
  have hs := hr.storable hc
  obtain ⟨comp, hcomp, rfl, rfl⟩ := (writeFile_eq_ok hs.buildId).mp hw
  obtain ⟨br, hparse⟩ := hs.parseSegments_written hc hcomp hlen
  refine ⟨_, br, hparse, sameContent_written nso comp none,
    { nso.written comp with modSection := none }, ?_⟩
  rw [← writeSegments_written hs.buildId]
  exact writeFile_written none hcomp

end RoundTrip

/-- A created NSO with one byte in each segment, one of them written to. -/
theorem parseSegments_writeFile_bytes : ∃ file nso', writeFile Lz4Codec.literals
      ((createNso [1] [2] [3] 0).overlay rodata 0 [7]) = .ok file nso' ∧
    ∃ nso₂ br, parseSegments Lz4Codec.literals (.ofBytes file) = .ok (nso₂, br) ∧
      ((createNso [1] [2] [3] 0).overlay rodata 0 [7]).SameContent nso₂ ∧
      ∃ nso₃, writeFile Lz4Codec.literals nso₂ = .ok file nso₃ := by
  have hlocate : (createNso [1] [2] [3] 0).locate 0x1000 1 = .ok (rodata, 0) := by decide
  have hr : Reachable Lz4Codec.literals ((createNso [1] [2] [3] 0).overlay rodata 0 [7]) := by
    have hcreate : Reachable Lz4Codec.literals (createNso [1] [2] [3] 0) :=
      .createNso 0 (by decide) (by decide) (by decide)
    have hwrite : Nso.writeNso 0x1000 [7] (createNso [1] [2] [3] 0) =
        .ok () ((createNso [1] [2] [3] 0).overlay rodata 0 [7]) := by
      rw [writeNso_eq, show [(7 : UInt8)].length = 1 from rfl, hlocate]
    exact hcreate.writeNso hwrite
  have hcomp : ∀ t, stored Lz4Codec.literals
      (((createNso [1] [2] [3] 0).overlay rodata 0 [7]).segments t) =
        .ok (ofSegments [0x10, 1] [0x10, 7] [0x10, 3] t) := by
    intro t
    cases t <;> decide
  have hw := writeFile_eq_ok_iff.mpr ⟨_, hcomp, rfl, rfl⟩
  exact ⟨_, _, hw, parseSegments_writeFile Lz4Codec.lawful_literals hr hw (by decide +kernel)⟩

end Sp2Module.Nso
