import Sp2Module.Nso

/-!
# MOD0 headers

The word at address 4 of an image points to its module header. The six addresses of a header are
stored as signed 32-bit distances from the header; one of them leads to the dynamic table.
-/

namespace Sp2Module

open BinaryReader

/-- The tags of dynamic entries that are looked at; every other value is skipped. -/
abbrev DtTagEnum := UInt64

namespace DtTagEnum

def dtNull : DtTagEnum := 0
def dtPltRelSz : DtTagEnum := 2
def dtPltGot : DtTagEnum := 3
def dtHash : DtTagEnum := 4
def dtStrTab : DtTagEnum := 5
def dtSymTab : DtTagEnum := 6
def dtRela : DtTagEnum := 7
def dtRelaSz : DtTagEnum := 8
def dtStrSz : DtTagEnum := 10
def dtInit : DtTagEnum := 12
def dtFini : DtTagEnum := 13
def dtRel : DtTagEnum := 17
def dtJmpRel : DtTagEnum := 23
def dtInitArray : DtTagEnum := 25
def dtFiniArray : DtTagEnum := 26
def dtInitArraySz : DtTagEnum := 27
def dtFiniArraySz : DtTagEnum := 28
def dtGnuHash : DtTagEnum := 0x6ffffef5

end DtTagEnum

structure Elf64Dyn where
  dTag : DtTagEnum
  dUn : UInt64
deriving DecidableEq, Repr

def elf64Dyn : Reads AppError Elf64Dyn := do
  let dTag ← readUInt64
  let dUn ← readUInt64
  return ⟨dTag, dUn⟩

namespace DynamicInfo

open DtTagEnum

/-- Which property each tag sets. -/
def fields : List (DtTagEnum × DynamicProperty) :=
  [(dtSymTab, .symTab), (dtRel, .rela), (dtRelaSz, .relaSize), (dtJmpRel, .jumpRela),
    (dtPltRelSz, .pltRelSize), (dtStrTab, .stringTable), (dtStrSz, .stringSize),
    (dtPltGot, .pltGot), (dtHash, .hash), (dtGnuHash, .gnuHash), (dtInit, .init), (dtFini, .fini),
    (dtInitArray, .initArray), (dtInitArraySz, .initArraySize), (dtFiniArray, .finiArray),
    (dtFiniArraySz, .finiArraySize)]

def setField (info : DynamicInfo) (dyn : Elf64Dyn) : DynamicInfo :=
  fields.foldl (fun info item =>
    if dyn.dTag = item.1 then Function.update info item.2 dyn.dUn else info) info

/-- The entries up to the null entry. Every turn of the loop takes 16 bytes, so that the loop is out
of bytes before it has made more turns than the buffer has entries. -/
def readEntries : ℕ → DynamicInfo → Reads AppError DynamicInfo
  | 0, _ => throw .endOfStream
  | n + 1, info => do
    let dyn ← elf64Dyn
    if dyn.dTag = dtNull then return info else readEntries n (info.setField dyn)

def ofNso (nso : Nso) (addr : ℤ) : Except Exception DynamicInfo := do
  let buffer ← nso.readNso (uintOfLong addr) 0x200
  let (info, _) ← readEntries (buffer.length / 16 + 1) (fun _ => 0) (.ofBytes buffer)
  return info

end DynamicInfo

namespace ModHeader

def headerMagic : String := "MOD0"

def headerSize : ℕ := 0x1C

def dynamicAddr (m : ModHeader) : ℤ := m.baseAddr + m.dynAddr.toInt
def bssStartAddr (m : ModHeader) : ℤ := m.baseAddr + m.bssStart.toInt
def bssEndAddr (m : ModHeader) : ℤ := m.baseAddr + m.bssEnd.toInt
def ehStartAddr (m : ModHeader) : ℤ := m.baseAddr + m.ehFrameStart.toInt
def ehEndAddr (m : ModHeader) : ℤ := m.baseAddr + m.ehFrameEnd.toInt
def moduleObjAddr (m : ModHeader) : ℤ := m.baseAddr + m.moduleObj.toInt

/-- The header without its dynamic table. -/
def readFields (baseAddr : ℤ) : Reads AppError ModHeader := do
  let magic ← readBytes 4
  if asciiGetString magic ≠ headerMagic then throw (.app (.nso "Invalid MOD0 header"))
  let dynAddr ← readInt32
  let bssStart ← readInt32
  let bssEnd ← readInt32
  let ehFrameStart ← readInt32
  let ehFrameEnd ← readInt32
  let moduleObj ← readInt32
  return ⟨baseAddr, dynAddr, bssStart, bssEnd, ehFrameStart, ehFrameEnd, moduleObj, none⟩

/-- `ModHeader(nso)`. -/
def ofNso (nso : Nso) : Except Exception ModHeader := do
  let baseAddr ← nso.getModAddr
  let buffer ← nso.readNso baseAddr 0x1C
  let (m, _) ← readFields baseAddr.toNat (.ofBytes buffer)
  let dynInfo ← DynamicInfo.ofNso nso m.dynamicAddr
  return { m with dynInfo := some dynInfo }

/-- The bytes of a header. -/
def raw (m : ModHeader) : Bytes :=
  asciiGetBytes headerMagic ++ (intBytes m.dynAddr ++ (intBytes m.bssStart ++
    (intBytes m.bssEnd ++ (intBytes m.ehFrameStart ++ (intBytes m.ehFrameEnd ++
      intBytes m.moduleObj)))))

def write (m : ModHeader) : EStateM Exception Nso Unit := do
  Nso.writeNso 4 (uintBytes (uintOfLong m.baseAddr))
  Nso.writeNso (uintOfLong m.baseAddr) m.raw

/-- The header as it is to be written at `newAddr`; its own base stays. -/
def relocate (m : ModHeader) (newAddr : UInt32) : ModHeader :=
  { m with
    dynAddr := intOfLong (m.dynamicAddr - newAddr.toNat)
    bssStart := intOfLong (m.bssStartAddr - newAddr.toNat)
    bssEnd := intOfLong (m.bssEndAddr - newAddr.toNat)
    ehFrameStart := intOfLong (m.ehStartAddr - newAddr.toNat)
    ehFrameEnd := intOfLong (m.ehEndAddr - newAddr.toNat)
    moduleObj := intOfLong (m.moduleObjAddr - newAddr.toNat) }

def rewrite (m : ModHeader) (newAddr : UInt32) : EStateM Exception Nso ModHeader := do
  let m := m.relocate newAddr
  m.write
  return m

/-- The header `CreateModHeader` writes. The end of the bss starts from the end of the file data as
the header stores it. -/
def create (nso : Nso) (modBase dyn ehstart ehend modObj : ℤ) : ModHeader :=
  let bssStartAddr := nso.rwdataSegment.endAddress.toNat
  let bssStart := intOfLong (bssStartAddr - modBase)
  let bssEndAddr := modBase + bssStart.toInt + nso.rwdataSegment.bssOrAlign.toNat
  { baseAddr := modBase
    dynAddr := intOfLong (dyn - modBase)
    bssStart := bssStart
    bssEnd := intOfLong (bssEndAddr - modBase)
    ehFrameStart := intOfLong (ehstart - modBase)
    ehFrameEnd := intOfLong (ehend - modBase)
    moduleObj := intOfLong (modObj - modBase)
    dynInfo := none }

def createModHeader (modBase dyn ehstart ehend modObj : ℤ) : EStateM Exception Nso ModHeader := do
  let m := create (← get) modBase dyn ehstart ehend modObj
  m.write
  return m

end ModHeader

/-! ### Decoding -/

theorem Nso.SameImage.getModAddr {nso nso' : Nso} (h : nso.SameImage nso') :
    nso.getModAddr = nso'.getModAddr := by
  simp only [Nso.getModAddr, h.readNso]

theorem Nso.SameImage.dynamicInfo {nso nso' : Nso} (h : nso.SameImage nso') (addr : ℤ) :
    DynamicInfo.ofNso nso addr = DynamicInfo.ofNso nso' addr := by
  simp only [DynamicInfo.ofNso, h.readNso]

theorem Nso.SameImage.modHeader {nso nso' : Nso} (h : nso.SameImage nso') :
    ModHeader.ofNso nso = ModHeader.ofNso nso' := by
  simp only [ModHeader.ofNso, h.getModAddr, h.readNso, h.dynamicInfo]

/-- The null entry ends the table. -/
theorem DynamicInfo.readEntries_of_null {n : ℕ} {info : DynamicInfo} {dyn : Elf64Dyn}
    {br br' : BinaryReader} (h : elf64Dyn br = .ok (dyn, br'))
    (hnull : dyn.dTag = DtTagEnum.dtNull) :
    readEntries (n + 1) info br = .ok (info, br') := by
  unfold readEntries
  rw [bind_of_ok h, if_pos hnull, pure_apply]

namespace ModHeader

variable {nso : Nso} {m : ModHeader}

theorem length_headerMagic : (asciiGetBytes headerMagic).length = 4 := by decide

theorem length_raw (m : ModHeader) : m.raw.length = headerSize := by
  simp only [raw, List.length_append, length_headerMagic, length_intBytes, headerSize]

/-- The bytes of a header are read as the header. -/
theorem readFields_raw (baseAddr : ℤ) (m : ModHeader) :
    ∃ br, readFields baseAddr (.ofBytes m.raw) =
      .ok ({ m with baseAddr := baseAddr, dynInfo := none }, br) := by
  have h : (ofBytes m.raw).rest = asciiGetBytes headerMagic ++ _ := rfl
  have h1 := rest_advance h length_headerMagic
  have h2 := rest_advance h1 (length_intBytes _)
  have h3 := rest_advance h2 (length_intBytes _)
  have h4 := rest_advance h3 (length_intBytes _)
  have h5 := rest_advance h4 (length_intBytes _)
  have h6 := rest_advance h5 (length_intBytes _)
  rw [← List.append_nil (intBytes m.moduleObj)] at h6
  unfold readFields
  rw [readMagic_of_rest _ h length_headerMagic (by decide), bind_of_ok (readInt32_of_rest h1),
    bind_of_ok (readInt32_of_rest h2), bind_of_ok (readInt32_of_rest h3),
    bind_of_ok (readInt32_of_rest h4), bind_of_ok (readInt32_of_rest h5),
    bind_of_ok (readInt32_of_rest h6)]
  exact ⟨_, rfl⟩

theorem readFields_eq_ok {baseAddr : ℤ} {br br' : BinaryReader}
    (h : readFields baseAddr br = .ok (m, br')) : m.baseAddr = baseAddr ∧ m.dynInfo = none := by
  obtain ⟨magic, _, -, h⟩ := bind_eq_ok.mp h
  by_cases hmagic : asciiGetString magic ≠ headerMagic
  · rw [if_pos hmagic] at h
    cases h
  rw [if_neg hmagic] at h
  obtain ⟨dynAddr, _, -, h⟩ := bind_eq_ok.mp h
  obtain ⟨bssStart, _, -, h⟩ := bind_eq_ok.mp h
  obtain ⟨bssEnd, _, -, h⟩ := bind_eq_ok.mp h
  obtain ⟨ehFrameStart, _, -, h⟩ := bind_eq_ok.mp h
  obtain ⟨ehFrameEnd, _, -, h⟩ := bind_eq_ok.mp h
  obtain ⟨moduleObj, _, -, h⟩ := bind_eq_ok.mp h
  cases h
  exact ⟨rfl, rfl⟩

/-- Of the bytes of a header only the magic word can be wrong. -/
theorem readFields_eq_error {baseAddr : ℤ} {buffer : Bytes} {x : Exception}
    (hlen : buffer.length = headerSize)
    (h : readFields baseAddr (.ofBytes buffer) = .error x) :
    x = .app (.nso "Invalid MOD0 header") := by
  unfold headerSize at hlen
  have hread : (readBytes 4 : Reads AppError Bytes) (ofBytes buffer) =
      .ok (slice buffer 0 4, (ofBytes buffer).advance 4) := by
    have hbytes : (readBytes (4 : ℕ) : Reads AppError Bytes) (ofBytes buffer) = _ :=
      readBytes_natCast (by decide)
    rw [length_slice, bytes_ofBytes, hlen] at hbytes
    exact hbytes
  unfold readFields at h
  rw [bind_of_ok hread] at h
  by_cases hmagic : asciiGetString (slice buffer 0 4) ≠ headerMagic
  · rw [if_pos hmagic] at h
    cases h
    rfl
  · rw [if_neg hmagic] at h
    have hword : ∀ n, n + 4 ≤ 0x1C →
        (readInt32 : Reads AppError Int32) ((ofBytes buffer).advance n) =
          .ok (intOfBytes (slice buffer n 4), (ofBytes buffer).advance (n + 4)) := by
      intro n hn
      have hroom : ((ofBytes buffer).advance n).position + 4 ≤
          ((ofBytes buffer).advance n).bytes.length := by
        simp only [position_advance, position_ofBytes, bytes_advance, bytes_ofBytes]
        omega
      rw [readInt32_of_le hroom, advance_advance]
      simp only [position_advance, position_ofBytes, Nat.zero_add, bytes_advance, bytes_ofBytes]
    dsimp only at h
    rw [bind_of_ok (hword 4 (by omega)), bind_of_ok (hword 8 (by omega)),
      bind_of_ok (hword 12 (by omega)), bind_of_ok (hword 16 (by omega)),
      bind_of_ok (hword 20 (by omega)), bind_of_ok (hword 24 (by omega))] at h
    cases h

/-- A header that is read has the bytes it is read from. -/
theorem raw_of_readFields {baseAddr : ℤ} {buffer : Bytes} {br : BinaryReader}
    (h : readFields baseAddr (.ofBytes buffer) = .ok (m, br)) (hlen : buffer.length = headerSize) :
    m.raw = buffer := by
  obtain ⟨magic, _, hread, h⟩ := bind_eq_ok.mp h
  obtain ⟨-, -, hmagic, rfl⟩ := readBytes_eq_ok hread
  by_cases hne : asciiGetString magic ≠ headerMagic
  · rw [if_pos hne] at h
    cases h
  rw [if_neg hne] at h
  have hascii : asciiGetBytes headerMagic = magic := by
    rw [← not_not.mp hne]
    apply asciiGetBytes_asciiGetString
    rw [not_not.mp hne]
    decide
  have hlen' : magic.length = 4 := by rw [← hascii, length_headerMagic]
  obtain ⟨dynAddr, _, h₁, h⟩ := bind_eq_ok.mp h
  obtain ⟨hdynAddr, rfl⟩ := readInt32_eq_ok h₁
  obtain ⟨bssStart, _, h₂, h⟩ := bind_eq_ok.mp h
  obtain ⟨hbssStart, rfl⟩ := readInt32_eq_ok h₂
  obtain ⟨bssEnd, _, h₃, h⟩ := bind_eq_ok.mp h
  obtain ⟨hbssEnd, rfl⟩ := readInt32_eq_ok h₃
  obtain ⟨ehFrameStart, _, h₄, h⟩ := bind_eq_ok.mp h
  obtain ⟨hehFrameStart, rfl⟩ := readInt32_eq_ok h₄
  obtain ⟨ehFrameEnd, _, h₅, h⟩ := bind_eq_ok.mp h
  obtain ⟨hehFrameEnd, rfl⟩ := readInt32_eq_ok h₅
  obtain ⟨moduleObj, _, h₆, h⟩ := bind_eq_ok.mp h
  obtain ⟨hmoduleObj, rfl⟩ := readInt32_eq_ok h₆
  cases h
  simp only [bytes_advance, position_advance, bytes_ofBytes, position_ofBytes, hlen'] at *
  -- the magic word and the six offsets are the consecutive words of the buffer
  have hflat := flatten_pieces buffer 0 [4, 4, 4, 4, 4, 4, 4]
  simp only [pieces, Nat.zero_add, List.flatten_cons, List.flatten_nil, List.append_nil] at hflat
  rw [show [4, 4, 4, 4, 4, 4, 4].sum = buffer.length by rw [hlen]; rfl, slice_zero_length] at hflat
  rw [← hflat, raw, hascii, hmagic]
  simp only [Nat.zero_add, Nat.reduceAdd] at *
  rw [← hdynAddr, ← hbssStart, ← hbssEnd, ← hehFrameStart, ← hehFrameEnd, ← hmoduleObj]
  rfl

/-- What a decoded header has been read from. -/
theorem ofNso_eq_ok (h : ofNso nso = .ok m) :
    ∃ base buffer info, nso.getModAddr = .ok base ∧ nso.readNso base 0x1C = .ok buffer ∧
      m.baseAddr = base.toNat ∧ DynamicInfo.ofNso nso m.dynamicAddr = .ok info ∧
      m.dynInfo = some info := by
  obtain ⟨base, hbase, h⟩ := except_bind_eq_ok.mp h
  obtain ⟨buffer, hbuffer, h⟩ := except_bind_eq_ok.mp h
  obtain ⟨⟨m₀, br⟩, hfields, h⟩ := except_bind_eq_ok.mp h
  obtain ⟨info, hinfo, h⟩ := except_bind_eq_ok.mp h
  cases h
  exact ⟨base, buffer, info, hbase, hbuffer, (readFields_eq_ok hfields).1, hinfo, rfl⟩

/-- The header an image is decoded to is in the image as its bytes. -/
theorem readNso_of_ofNso (hs : nso.Sized) (h : ofNso nso = .ok m) :
    ∃ base, nso.getModAddr = .ok base ∧ m.baseAddr = base.toNat ∧
      nso.readNso base headerSize = .ok m.raw := by
  obtain ⟨base, hbase, h⟩ := except_bind_eq_ok.mp h
  obtain ⟨buffer, hread, h⟩ := except_bind_eq_ok.mp h
  obtain ⟨⟨m₀, br⟩, hfields, h⟩ := except_bind_eq_ok.mp h
  obtain ⟨info, -, h⟩ := except_bind_eq_ok.mp h
  cases h
  obtain ⟨-, -, -, -, -, hlen⟩ := Nso.locate_of_readNso (n := headerSize) hs hread
  have hraw : m₀.raw = buffer := raw_of_readFields hfields hlen
  exact ⟨base, hbase, (readFields_eq_ok hfields).1, by rw [← hraw] at hread; exact hread⟩

/-- A header decodes where its bytes are. -/
theorem ofNso_eq {base : UInt32} {info : DynamicInfo} (hbase : nso.getModAddr = .ok base)
    (hm : m.baseAddr = base.toNat) (hraw : nso.readNso base 0x1C = .ok m.raw)
    (hinfo : DynamicInfo.ofNso nso m.dynamicAddr = .ok info) :
    ofNso nso = .ok { m with dynInfo := some info } := by
  obtain ⟨br, hbr⟩ := readFields_raw base.toNat m
  rw [← hm] at hbr
  refine except_bind_eq_ok.mpr ⟨base, hbase, except_bind_eq_ok.mpr ⟨m.raw, hraw, ?_⟩⟩
  rw [← hm]
  refine except_bind_eq_ok.mpr ⟨_, hbr, except_bind_eq_ok.mpr ⟨info, hinfo, rfl⟩⟩

theorem ofNso_eq_error {base : UInt32} {buffer : Bytes} {x : Exception}
    (hbase : nso.getModAddr = .ok base) (hread : nso.readNso base 0x1C = .ok buffer)
    (hfields : readFields base.toNat (.ofBytes buffer) = .error x) : ofNso nso = .error x := by
  simp only [ofNso, hbase, hread, hfields, bind, Except.bind]

end ModHeader

end Sp2Module
