import Sp2Module.Alignment
import Sp2Module.BinaryReader
import Sp2Module.Sha256
import Mathlib.Logic.Function.Basic

/-!
# NSO images

An NSO holds three segments, each a buffer placed at an address of the image. Reads and writes
look up the first segment that contains the address. `locate` is the place a write of a given
length goes to; it depends only on the layout of the segments, and `overlay` is what the write
does there.
-/

namespace Sp2Module

inductive AppError where
  | nso (message : String)
  | pfs0 (message : String)
  | patchConfig (message : String)
  | armv8 (message : String)
deriving DecidableEq, Repr

abbrev Exception := Exn AppError

inductive SegPerm where
  | none
  | r
  | w
  | x
  | rw
  | rx
deriving DecidableEq, Repr

def SegPerm.value : SegPerm → ℕ
  | .none => 0
  | .r => 1
  | .w => 2
  | .x => 4
  | .rw => 3
  | .rx => 5

/-- `(perm & SegPerm.R) == SegPerm.R`. -/
def SegPerm.readable (p : SegPerm) : Bool := p.value &&& SegPerm.r.value == SegPerm.r.value

theorem SegPerm.readable_eq_false {p : SegPerm} :
    p.readable = false ↔ p = .none ∨ p = .w ∨ p = .x := by
  cases p <;> decide

inductive NsoSegmentType where
  | text
  | rodata
  | rwdata
deriving DecidableEq, Repr

namespace NsoSegmentType

/-- The segments in the order of their indices. -/
def all : List NsoSegmentType := [text, rodata, rwdata]

def index : NsoSegmentType → ℕ
  | text => 0
  | rodata => 1
  | rwdata => 2

@[simp] theorem mem_all (t : NsoSegmentType) : t ∈ all := by cases t <;> decide

end NsoSegmentType

/-- A segment; `sha256` is `none` where the source leaves the field null. -/
structure NsoSegment where
  rawData : Bytes
  compressed : Bool
  fileOffset : UInt32
  address : UInt32
  decompressedSize : UInt32
  compressedSize : UInt32
  bssOrAlign : UInt32
  sha256 : Option Bytes
deriving DecidableEq, Repr

structure DataExtent where
  offset : UInt32
  size : UInt32
deriving DecidableEq, Repr

namespace NsoSegment

/-- The end of the segment in the image, in 32-bit arithmetic. -/
def endAddress (s : NsoSegment) : UInt32 := s.address + s.decompressedSize

def Contains (s : NsoSegment) (addr : UInt32) : Prop := s.address ≤ addr ∧ addr < s.endAddress

instance (s : NsoSegment) (addr : UInt32) : Decidable (s.Contains addr) :=
  inferInstanceAs (Decidable (_ ∧ _))

/-- `NsoSegment(addr, data, type, bssOrAlign)`. -/
def create (addr : UInt32) (data : Bytes) (bssOrAlign : UInt32) : NsoSegment where
  rawData := data
  compressed := true
  fileOffset := 0
  address := addr
  decompressedSize := UInt32.ofNat data.length
  compressedSize := 0
  bssOrAlign := bssOrAlign
  sha256 := none

/-- `data` written into the segment at offset `off`, and its hash recomputed. -/
def overlay (s : NsoSegment) (off : ℕ) (data : Bytes) : NsoSegment :=
  let raw := overwrite s.rawData off data
  { s with rawData := raw, sha256 := some (computeHash raw) }

variable {s : NsoSegment} {addr : UInt32}

theorem toNat_endAddress (s : NsoSegment) :
    s.endAddress.toNat = (s.address.toNat + s.decompressedSize.toNat) % 2 ^ 32 :=
  UInt32.toNat_add _ _

/-- An address in the segment rules out that the end wraps around. -/
theorem Contains.toNat_endAddress (h : s.Contains addr) :
    s.endAddress.toNat = s.address.toNat + s.decompressedSize.toNat := by
  have hle : s.address.toNat ≤ addr.toNat := UInt32.le_iff_toNat_le.mp h.1
  have hlt : addr.toNat < s.endAddress.toNat := UInt32.lt_iff_toNat_lt.mp h.2
  have hs : s.address.toNat < 2 ^ 32 := s.address.toNat_lt
  have hd : s.decompressedSize.toNat < 2 ^ 32 := s.decompressedSize.toNat_lt
  rw [NsoSegment.toNat_endAddress] at hlt ⊢
  omega

theorem contains_iff (s : NsoSegment) (addr : UInt32) :
    s.Contains addr ↔ s.address.toNat ≤ addr.toNat ∧
      addr.toNat < s.address.toNat + s.decompressedSize.toNat ∧
      s.address.toNat + s.decompressedSize.toNat < 2 ^ 32 := by
  constructor
  · intro h
    have hend := h.toNat_endAddress
    have hlt : s.endAddress.toNat < 2 ^ 32 := s.endAddress.toNat_lt
    refine ⟨UInt32.le_iff_toNat_le.mp h.1, ?_, by omega⟩
    rw [← hend]
    exact UInt32.lt_iff_toNat_lt.mp h.2
  · rintro ⟨hle, hlt, hwrap⟩
    refine ⟨UInt32.le_iff_toNat_le.mpr hle, UInt32.lt_iff_toNat_lt.mpr ?_⟩
    rwa [NsoSegment.toNat_endAddress, Nat.mod_eq_of_lt hwrap]

theorem toNat_sub_address (h : s.Contains addr) :
    (addr - s.address).toNat = addr.toNat - s.address.toNat :=
  UInt32.toNat_sub_of_le _ _ h.1

end NsoSegment

/-- The properties of `DynamicInfo`, which the source sets by name. -/
inductive DynamicProperty where
  | symTab
  | rela
  | relaSize
  | jumpRela
  | pltRelSize
  | stringTable
  | stringSize
  | pltGot
  | hash
  | gnuHash
  | init
  | fini
  | initArray
  | initArraySize
  | finiArray
  | finiArraySize
deriving DecidableEq, Repr

abbrev DynamicInfo := DynamicProperty → UInt64

/-- A MOD0 header; its addresses are stored relative to `baseAddr`. -/
structure ModHeader where
  baseAddr : ℤ
  dynAddr : Int32
  bssStart : Int32
  bssEnd : Int32
  ehFrameStart : Int32
  ehFrameEnd : Int32
  moduleObj : Int32
  dynInfo : Option DynamicInfo

structure Nso where
  flag : UInt32
  buildId : Bytes
  segments : NsoSegmentType → NsoSegment
  dynamicStringTable : DataExtent
  dynamicSymbolTable : DataExtent
  modSection : Option ModHeader

namespace Nso

open NsoSegmentType

def textSegment (nso : Nso) : NsoSegment := nso.segments text
def rodataSegment (nso : Nso) : NsoSegment := nso.segments rodata
def rwdataSegment (nso : Nso) : NsoSegment := nso.segments rwdata

def startAddress (nso : Nso) : UInt32 := nso.textSegment.address

def endAddress (nso : Nso) : UInt32 :=
  nso.rwdataSegment.address + nso.rwdataSegment.decompressedSize + nso.rwdataSegment.bssOrAlign

def setSegment (nso : Nso) (t : NsoSegmentType) (s : NsoSegment) : Nso :=
  { nso with segments := Function.update nso.segments t s }

def getAddressSegment (nso : Nso) (addr : UInt32) : Option NsoSegmentType :=
  all.find? fun t => (nso.segments t).Contains addr

def getAddressPerm (nso : Nso) (addr : UInt32) : SegPerm :=
  match nso.getAddressSegment addr with
  | none => .none
  | some text => .rx
  | some rodata => .r
  | some rwdata => .rw

def readNso (nso : Nso) (addr : UInt32) (size : ℤ) : Except Exception Bytes :=
  match nso.getAddressSegment addr with
  | none => .error (.app (.nso "Invalid Address"))
  | some t =>
    let seg := nso.segments t
    if (seg.endAddress.toNat : ℤ) < addr.toNat + size then .error (.app (.nso "Invalid Size"))
    else memoryRead seg.rawData (addr - seg.address).toNat size

def writeNso (addr : UInt32) (data : Bytes) : EStateM Exception Nso Unit := fun nso =>
  match nso.getAddressSegment addr with
  | none => .error (.app (.nso "Invalid Address")) nso
  | some t =>
    let seg := nso.segments t
    if seg.endAddress.toNat < addr.toNat + data.length then .error (.app (.nso "Invalid Size")) nso
    else
      match memoryWrite seg.rawData (addr - seg.address).toNat data with
      | .error e => .error e nso
      | .ok raw =>
        .ok () (nso.setSegment t { seg with rawData := raw, sha256 := some (computeHash raw) })

/-- The size is assigned before the new buffer is allocated, and the hash is left as it is. -/
def resizeSegment (t : NsoSegmentType) (newSize : UInt32) : EStateM Exception Nso Unit := fun nso =>
  let seg := { nso.segments t with decompressedSize := newSize }
  if maxArrayLength < newSize.toNat then
    .error (newArrayExn newSize.toNat) (nso.setSegment t seg)
  else
    let buff := overwrite (List.replicate newSize.toNat 0) 0 seg.rawData
    .ok () (nso.setSegment t { seg with rawData := buff })

def setBssOrAlign (nso : Nso) (t : NsoSegmentType) (bssOrAlign : UInt32) : Nso :=
  nso.setSegment t { nso.segments t with bssOrAlign := bssOrAlign }

def getModAddr (nso : Nso) : Except Exception UInt32 := do
  toUInt32 (← nso.readNso 4 4)

/-- `(uint)((len + 0xFFF) & ~0xFFF)`, the room a segment of `CreateNso` takes. -/
def pageSize (data : Bytes) : UInt32 := uintOfLong (alignUp 0x1000 data.length)

def createNso (textData rodataData rwdataData : Bytes) (bssSize : UInt32) : Nso where
  flag := 0x1F
  buildId := List.replicate 0x20 0
  segments
    | text => .create 0 textData 0x100
    | rodata => .create (pageSize textData) rodataData 0x100
    | rwdata => .create (pageSize textData + pageSize rodataData) rwdataData bssSize
  dynamicStringTable := ⟨0, 0⟩
  dynamicSymbolTable := ⟨0, 0⟩
  modSection := none

/-! ### Where a write goes and what it does -/

/-- The segment and the offset a write of `n` bytes at `addr` goes to. -/
def locate (nso : Nso) (addr : UInt32) (n : ℕ) : Except Exception (NsoSegmentType × ℕ) :=
  match nso.getAddressSegment addr with
  | none => .error (.app (.nso "Invalid Address"))
  | some t =>
    let seg := nso.segments t
    let off := (addr - seg.address).toNat
    if seg.endAddress.toNat < addr.toNat + n then .error (.app (.nso "Invalid Size"))
    else if off + n ≤ seg.rawData.length then .ok (t, off)
    else if 2 ^ 31 ≤ off then .error .argumentOutOfRange
    else .error .notSupported

def overlay (nso : Nso) (t : NsoSegmentType) (off : ℕ) (data : Bytes) : Nso :=
  nso.setSegment t ((nso.segments t).overlay off data)

variable {nso : Nso} {t u : NsoSegmentType} {addr : UInt32} {off n : ℕ} {data : Bytes}

@[simp] theorem segments_setSegment_same (nso : Nso) (t : NsoSegmentType) (s : NsoSegment) :
    (nso.setSegment t s).segments t = s := by
  simp [setSegment]

theorem segments_setSegment_of_ne (h : u ≠ t) (s : NsoSegment) :
    (nso.setSegment t s).segments u = nso.segments u := by
  simp [setSegment, h]

theorem segments_setSegment (nso : Nso) (t u : NsoSegmentType) (s : NsoSegment) :
    (nso.setSegment t s).segments u = if u = t then s else nso.segments u :=
  Function.update_apply _ _ _ _

theorem setSegment_self (nso : Nso) (t : NsoSegmentType) :
    nso.setSegment t (nso.segments t) = nso := by
  unfold setSegment
  rw [Function.update_eq_self]

theorem segments_overlay_same (nso : Nso) (t : NsoSegmentType) (off : ℕ) (data : Bytes) :
    (nso.overlay t off data).segments t = (nso.segments t).overlay off data :=
  segments_setSegment_same _ _ _

theorem segments_overlay_of_ne (h : u ≠ t) (nso : Nso) (off : ℕ) (data : Bytes) :
    (nso.overlay t off data).segments u = nso.segments u :=
  segments_setSegment_of_ne h _

@[simp] theorem flag_setSegment (s : NsoSegment) : (nso.setSegment t s).flag = nso.flag := rfl
@[simp] theorem buildId_setSegment (s : NsoSegment) :
    (nso.setSegment t s).buildId = nso.buildId := rfl
@[simp] theorem modSection_setSegment (s : NsoSegment) :
    (nso.setSegment t s).modSection = nso.modSection := rfl
@[simp] theorem dynamicStringTable_setSegment (s : NsoSegment) :
    (nso.setSegment t s).dynamicStringTable = nso.dynamicStringTable := rfl
@[simp] theorem dynamicSymbolTable_setSegment (s : NsoSegment) :
    (nso.setSegment t s).dynamicSymbolTable = nso.dynamicSymbolTable := rfl

theorem getAddressSegment_eq_some (h : nso.getAddressSegment addr = some t) :
    (nso.segments t).Contains addr := by
  simpa using List.find?_some h

theorem getAddressSegment_eq_none :
    nso.getAddressSegment addr = none ↔ ∀ t, ¬ (nso.segments t).Contains addr := by
  simp [getAddressSegment]

/-- Every write is decided by `locate` and carried out by `overlay`. -/
theorem writeNso_eq (nso : Nso) (addr : UInt32) (data : Bytes) :
    writeNso addr data nso = match nso.locate addr data.length with
      | .error e => .error e nso
      | .ok (t, off) => .ok () (nso.overlay t off data) := by
  unfold writeNso locate
  cases nso.getAddressSegment addr with
  | none => rfl
  | some t =>
    dsimp only
    split_ifs with hend hfit hpos
    · rfl
    all_goals simp only [memoryWrite, hfit, if_true, if_false]
    · rfl
    · rw [if_pos hpos]
    · rw [if_neg hpos]

theorem locate_eq_ok (h : nso.locate addr n = .ok (t, off)) :
    nso.getAddressSegment addr = some t ∧ (nso.segments t).Contains addr ∧
      off + (nso.segments t).address.toNat = addr.toNat ∧
      off + n ≤ (nso.segments t).decompressedSize.toNat ∧
      off + n ≤ (nso.segments t).rawData.length := by
  unfold locate at h
  cases hseg : nso.getAddressSegment addr with
  | none => simp [hseg] at h
  | some u =>
    simp only [hseg] at h
    split_ifs at h with hend hfit
    simp only [Except.ok.injEq, Prod.mk.injEq] at h
    obtain ⟨rfl, rfl⟩ := h
    have hc := getAddressSegment_eq_some hseg
    have hle := ((nso.segments u).contains_iff addr).mp hc
    rw [NsoSegment.toNat_sub_address hc] at hfit ⊢
    rw [hc.toNat_endAddress] at hend
    exact ⟨rfl, hc, by omega, by omega, hfit⟩

theorem locate_of_le (h : nso.getAddressSegment addr = some t)
    (hn : addr.toNat + n ≤
      (nso.segments t).address.toNat + (nso.segments t).decompressedSize.toNat)
    (hraw : addr.toNat - (nso.segments t).address.toNat + n ≤ (nso.segments t).rawData.length) :
    nso.locate addr n = .ok (t, addr.toNat - (nso.segments t).address.toNat) := by
  have hc := getAddressSegment_eq_some h
  unfold locate
  simp only [h]
  rw [NsoSegment.toNat_sub_address hc, if_neg (by rw [hc.toNat_endAddress]; omega), if_pos hraw]

theorem locate_of_getAddressSegment (h : nso.getAddressSegment addr = some t)
    (hn : addr.toNat + n ≤
      (nso.segments t).address.toNat + (nso.segments t).decompressedSize.toNat)
    (hraw : (nso.segments t).rawData.length = (nso.segments t).decompressedSize.toNat) :
    nso.locate addr n = .ok (t, addr.toNat - (nso.segments t).address.toNat) := by
  have hle := ((nso.segments t).contains_iff addr).mp (getAddressSegment_eq_some h)
  exact locate_of_le h hn (by omega)

/-! ### Layout -/

/-- What a lookup sees of a segment. -/
structure SegmentLayout where
  address : UInt32
  decompressedSize : UInt32
  bssOrAlign : UInt32
  rawLength : ℕ
deriving DecidableEq

def layout (nso : Nso) (t : NsoSegmentType) : SegmentLayout where
  address := (nso.segments t).address
  decompressedSize := (nso.segments t).decompressedSize
  bssOrAlign := (nso.segments t).bssOrAlign
  rawLength := (nso.segments t).rawData.length

theorem layout_overlay (nso : Nso) (t : NsoSegmentType) (off : ℕ) (data : Bytes) :
    (nso.overlay t off data).layout = nso.layout := by
  funext u
  by_cases h : u = t
  · subst h
    simp [layout, overlay, NsoSegment.overlay]
  · simp [layout, overlay, segments_setSegment_of_ne h]

section Congruence

variable {nso' : Nso} (h : nso.layout = nso'.layout)
include h

theorem address_congr (t : NsoSegmentType) :
    (nso.segments t).address = (nso'.segments t).address :=
  congrArg SegmentLayout.address (congrFun h t)

theorem decompressedSize_congr (t : NsoSegmentType) :
    (nso.segments t).decompressedSize = (nso'.segments t).decompressedSize :=
  congrArg SegmentLayout.decompressedSize (congrFun h t)

theorem bssOrAlign_congr (t : NsoSegmentType) :
    (nso.segments t).bssOrAlign = (nso'.segments t).bssOrAlign :=
  congrArg SegmentLayout.bssOrAlign (congrFun h t)

theorem rawLength_congr (t : NsoSegmentType) :
    (nso.segments t).rawData.length = (nso'.segments t).rawData.length :=
  congrArg SegmentLayout.rawLength (congrFun h t)

theorem startAddress_congr : nso.startAddress = nso'.startAddress := address_congr h text

theorem endAddress_congr : nso.endAddress = nso'.endAddress := by
  simp only [endAddress, rwdataSegment, address_congr h, decompressedSize_congr h,
    bssOrAlign_congr h]

theorem getAddressSegment_congr (addr : UInt32) :
    nso.getAddressSegment addr = nso'.getAddressSegment addr := by
  simp only [getAddressSegment, NsoSegment.Contains, NsoSegment.endAddress, address_congr h,
    decompressedSize_congr h]
  rfl

theorem locate_congr (addr : UInt32) (n : ℕ) : nso.locate addr n = nso'.locate addr n := by
  simp only [locate, getAddressSegment_congr h, NsoSegment.endAddress, address_congr h,
    decompressedSize_congr h, rawLength_congr h]
  rfl

end Congruence

/-! ### Reads -/

theorem readNso_eq_ok {b : Bytes} (h : nso.readNso addr n = .ok b) :
    ∃ t, nso.getAddressSegment addr = some t ∧
      addr.toNat + n ≤ (nso.segments t).address.toNat + (nso.segments t).decompressedSize.toNat ∧
      b = slice (nso.segments t).rawData (addr.toNat - (nso.segments t).address.toNat) n := by
  unfold readNso at h
  cases hseg : nso.getAddressSegment addr with
  | none => simp [hseg] at h
  | some t =>
    have hc := getAddressSegment_eq_some hseg
    simp only [hseg, memoryRead, NsoSegment.toNat_sub_address hc, hc.toNat_endAddress] at h
    split_ifs at h with hend
    cases h
    exact ⟨t, rfl, by omega, by rw [Int.toNat_natCast]⟩

theorem length_le_of_readNso {size : ℤ} {b : Bytes} (h : nso.readNso addr size = .ok b) :
    (b.length : ℤ) ≤ size := by
  unfold readNso memoryRead at h
  cases hseg : nso.getAddressSegment addr with
  | none => simp [hseg] at h
  | some t =>
    simp only [hseg] at h
    split_ifs at h with h₁ h₂ h₃ h₄
    cases h
    rw [length_slice]
    omega

theorem readNso_of_getAddressSegment (h : nso.getAddressSegment addr = some t)
    (hend : addr.toNat + n ≤
      (nso.segments t).address.toNat + (nso.segments t).decompressedSize.toNat)
    (hraw : addr.toNat - (nso.segments t).address.toNat ≤ (nso.segments t).rawData.length)
    (hmax : n ≤ maxArrayLength) :
    nso.readNso addr n =
      .ok (slice (nso.segments t).rawData (addr.toNat - (nso.segments t).address.toNat) n) := by
  have hc := getAddressSegment_eq_some h
  unfold readNso
  simp only [h]
  rw [hc.toNat_endAddress, if_neg (by omega), NsoSegment.toNat_sub_address hc, memoryRead,
    if_neg (by omega), if_neg (by omega), if_neg (by omega), Int.toNat_natCast]

/-- Every buffer has the size its segment declares. -/
def Sized (nso : Nso) : Prop :=
  ∀ t, (nso.segments t).rawData.length = (nso.segments t).decompressedSize.toNat

/-- What can be read can be written. -/
theorem locate_of_readNso {b : Bytes} (hs : nso.Sized) (h : nso.readNso addr n = .ok b) :
    ∃ t off, nso.locate addr n = .ok (t, off) ∧
      off + (nso.segments t).address.toNat = addr.toNat ∧
      slice (nso.segments t).rawData off n = b ∧ b.length = n := by
  obtain ⟨t, hseg, hend, rfl⟩ := readNso_eq_ok h
  have hle := ((nso.segments t).contains_iff addr).mp (getAddressSegment_eq_some hseg)
  have hlen := hs t
  refine ⟨t, _, locate_of_getAddressSegment hseg hend hlen, by omega, rfl, ?_⟩
  rw [length_slice]
  omega

/-- Where the buffers have their sizes only the two checks of the source refuse a read. -/
theorem readNso_eq_error {x : Exception} (hs : nso.Sized) (hmax : n ≤ maxArrayLength)
    (h : nso.readNso addr n = .error x) : ∃ message, x = .app (.nso message) := by
  cases hseg : nso.getAddressSegment addr with
  | none =>
    simp only [readNso, hseg] at h
    cases h
    exact ⟨_, rfl⟩
  | some t =>
    have hc := getAddressSegment_eq_some hseg
    have hle := ((nso.segments t).contains_iff addr).mp hc
    have hlen := hs t
    by_cases hend : addr.toNat + n ≤
        (nso.segments t).address.toNat + (nso.segments t).decompressedSize.toNat
    · rw [readNso_of_getAddressSegment hseg hend (by omega) hmax] at h
      cases h
    · simp only [readNso, hseg] at h
      rw [hc.toNat_endAddress, if_pos (by omega)] at h
      cases h
      exact ⟨_, rfl⟩

/-- The two have the same bytes at the same addresses. -/
structure SameImage (nso nso' : Nso) : Prop where
  address : ∀ t, (nso.segments t).address = (nso'.segments t).address
  decompressedSize : ∀ t, (nso.segments t).decompressedSize = (nso'.segments t).decompressedSize
  rawData : ∀ t, (nso.segments t).rawData = (nso'.segments t).rawData

theorem SameImage.readNso {nso' : Nso} (h : nso.SameImage nso') : nso.readNso = nso'.readNso := by
  funext addr size
  simp only [Nso.readNso, getAddressSegment, NsoSegment.Contains, NsoSegment.endAddress,
    h.address, h.decompressedSize, h.rawData]
  rfl

theorem SameImage.trans {nso' nso'' : Nso} (h : nso.SameImage nso') (h' : nso'.SameImage nso'') :
    nso.SameImage nso'' where
  address t := (h.address t).trans (h'.address t)
  decompressedSize t := (h.decompressedSize t).trans (h'.decompressedSize t)
  rawData t := (h.rawData t).trans (h'.rawData t)

theorem SameImage.sized {nso' : Nso} (h : nso.SameImage nso') (hs : nso'.Sized) : nso.Sized := by
  intro t
  rw [h.rawData, h.decompressedSize, hs t]

theorem sameImage_setBssOrAlign (nso : Nso) (t : NsoSegmentType) (bssOrAlign : UInt32) :
    (nso.setBssOrAlign t bssOrAlign).SameImage nso := by
  constructor
  all_goals
    intro u
    by_cases hu : u = t
    · subst hu
      simp [setBssOrAlign]
    · simp [setBssOrAlign, segments_setSegment_of_ne hu]

/-- A write changes no read of other addresses. -/
theorem readNso_overlay_of_disjoint {addr' : UInt32}
    (hoff : off + (nso.segments t).address.toNat = addr.toNat)
    (h : addr'.toNat + n ≤ addr.toNat ∨ addr.toNat + data.length ≤ addr'.toNat) :
    (nso.overlay t off data).readNso addr' n = nso.readNso addr' n := by
  have hl := nso.layout_overlay t off data
  unfold Nso.readNso
  rw [getAddressSegment_congr hl]
  cases hseg : nso.getAddressSegment addr' with
  | none => rfl
  | some u =>
    have hc := getAddressSegment_eq_some hseg
    have hle := ((nso.segments u).contains_iff addr').mp hc
    simp only [NsoSegment.endAddress, address_congr hl, decompressedSize_congr hl]
    by_cases hu : u = t
    · subst hu
      rw [NsoSegment.toNat_sub_address hc]
      simp only [memoryRead, rawLength_congr hl, Int.toNat_natCast]
      have hslice : slice ((nso.overlay u off data).segments u).rawData
          (addr'.toNat - (nso.segments u).address.toNat) n =
            slice (nso.segments u).rawData (addr'.toNat - (nso.segments u).address.toNat) n := by
        rw [segments_overlay_same, NsoSegment.overlay]
        exact slice_overwrite_disjoint (by omega)
      rw [hslice]
    · rw [segments_overlay_of_ne hu]
      rfl

/-- A write changes no byte of other addresses. -/
theorem getElem?_overlay {k : ℕ} (hoff : off + (nso.segments t).address.toNat = addr.toNat)
    (h : (nso.segments u).address.toNat + k < addr.toNat ∨
      addr.toNat + data.length ≤ (nso.segments u).address.toNat + k) :
    ((nso.overlay t off data).segments u).rawData[k]? = (nso.segments u).rawData[k]? := by
  by_cases hu : u = t
  · subst hu
    rw [segments_overlay_same, NsoSegment.overlay]
    exact getElem?_overwrite_outside (by omega)
  · rw [segments_overlay_of_ne hu]

/-- A write is read back. -/
theorem readNso_overlay_same (hloc : nso.locate addr data.length = .ok (t, off))
    (hmax : data.length ≤ maxArrayLength) :
    (nso.overlay t off data).readNso addr data.length = .ok data := by
  obtain ⟨hseg, hc, haddr, hend, hraw⟩ := locate_eq_ok hloc
  have hl := nso.layout_overlay t off data
  unfold Nso.readNso
  rw [getAddressSegment_congr hl, hseg]
  simp only [NsoSegment.endAddress, address_congr hl, decompressedSize_congr hl]
  change (if ((nso.segments t).endAddress.toNat : ℤ) < _ then _ else _) = _
  rw [hc.toNat_endAddress, if_neg (by omega), NsoSegment.toNat_sub_address hc]
  have hoff : addr.toNat - (nso.segments t).address.toNat = off := by omega
  have hslice : slice ((nso.overlay t off data).segments t).rawData off data.length = data := by
    rw [segments_overlay_same, NsoSegment.overlay]
    exact slice_overwrite_same hraw
  rw [hoff, memoryRead, rawLength_congr hl, if_neg (by omega), if_neg (by omega),
    if_neg (by omega), Int.toNat_natCast, hslice]

/-- Writing the bytes that are there changes no byte. -/
theorem sameImage_overlay (hfit : off + n ≤ (nso.segments t).rawData.length)
    (h : slice (nso.segments t).rawData off n = data) : (nso.overlay t off data).SameImage nso := by
  have hl := nso.layout_overlay t off data
  refine ⟨address_congr hl, decompressedSize_congr hl, fun u => ?_⟩
  by_cases hu : u = t
  · subst hu
    rw [segments_overlay_same, NsoSegment.overlay]
    rw [← h]
    exact overwrite_self hfit
  · rw [segments_overlay_of_ne hu]

end Nso
end Sp2Module
