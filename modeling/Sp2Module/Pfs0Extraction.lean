import Sp2Module.Pfs0Files
import Sp2Module.Pfs0RoundTrip

/-!
# Extraction of any archive

The reader adds, multiplies and narrows what the header and the entries say and checks little of it:
a name may run on behind the table of names, contents may be short or taken from elsewhere, and a
file may be written over another. What it gives is what the archive declares where every entry lies
within its tables and no two names lead to one file.
-/

namespace Sp2Module.Pfs0

open BinaryReader

/-! ### What an archive declares -/

section Declared

variable (stream : Bytes) (i : ℕ)

def fileCount : Int32 := intOfBytes (slice stream 4 4)

def strTableLenght : Int32 := intOfBytes (slice stream 8 4)

def dataOff : Int64 := (ulongOfBytes (slice stream (16 + 24 * i) 8)).toInt64

def dataSize : Int64 := (ulongOfBytes (slice stream (16 + 24 * i + 8) 8)).toInt64

def strOff : Int32 := intOfBytes (slice stream (16 + 24 * i + 16) 4)

/-- How many entries there are. -/
def entries : ℕ := (fileCount stream).toInt.toNat

/-- The names stand behind the entries, and the contents behind the names. -/
def nameTable : ℤ := 16 + 24 * (fileCount stream).toInt

def dataTable : ℤ := nameTable stream + (strTableLenght stream).toInt

/-- The bytes of a name and the NUL behind it, in a table of names at `table`. -/
def nameBytes (table : ℤ) : Option Bytes :=
  if table + (strOff stream i).toInt < 0 then none
  else untilNul (stream.drop (table + (strOff stream i).toInt).toNat)

def nameIn (table : ℤ) : String :=
  removeNul (Utf8.getString ((nameBytes stream i table).getD []))

def entryName : String := nameIn stream i (nameTable stream)

def entryData : Bytes :=
  slice stream (dataTable stream + (dataOff stream i).toInt).toNat (dataSize stream i).toInt.toNat

/-- The name ends within the table of names, and the contents within the stream. -/
def InRange : Prop :=
  0 ≤ (strOff stream i).toInt ∧
    (∃ w, nameBytes stream i (nameTable stream) = some w ∧
      (strOff stream i).toInt + w.length ≤ (strTableLenght stream).toInt) ∧
    0 ≤ (dataOff stream i).toInt ∧ 0 ≤ (dataSize stream i).toInt ∧
      dataTable stream + (dataOff stream i).toInt + (dataSize stream i).toInt ≤ stream.length

end Declared

/-- The extraction throws nothing, and the file system takes every path. -/
def ReturnsNormally (fs : FileSystem) (e : Extraction) : Prop :=
  e.outcome = .ok () ∧ ∀ f ∈ e.written, fs.takes f.1 = true

/-- No two names lead to one file. -/
def DistinctFiles (fs : FileSystem) (dirPath : String) (stream : Bytes) : Prop :=
  ((List.range (entries stream)).map fun i => fs.place (path dirPath (entryName stream i))).Nodup

/-- For each entry a file of its own is written under the declared name, and in the end, whatever
was there before, it has the declared contents. -/
structure Extracted (fs : FileSystem) (dirPath : String) (stream : Bytes) : Prop where
  count : 0 ≤ (fileCount stream).toInt
  inRange : ∀ i < entries stream, InRange stream i
  distinct : DistinctFiles fs dirPath stream
  written : (extractFiles dirPath stream).written = (List.range (entries stream)).map fun i =>
    (path dirPath (entryName stream i), entryData stream i)
  contents : ∀ tree, ∀ i < entries stream, ∃ p,
    fs.place (path dirPath (entryName stream i)) = some p ∧
      (extractFiles dirPath stream).written.foldl fs.write tree p = some (entryData stream i)

def ExtractsExactly (fs : FileSystem) (dirPath : String) (stream : Bytes) : Prop :=
  ReturnsNormally fs (extractFiles dirPath stream) → Extracted fs dirPath stream

/-! ### What the reader takes it for -/

section Read

variable (stream : Bytes) (i : ℕ)

/-- The size of the entries wraps around in 32 bits. -/
def nameTableRead : ℤ := 16 + (24 * (fileCount stream).toInt).bmod (2 ^ 32)

def dataTableRead : ℤ := nameTableRead stream + (strTableLenght stream).toInt

def dataPosition : ℤ := (dataTableRead stream + (dataOff stream i).toInt).bmod (2 ^ 64)

def sizeRead : ℤ := (dataSize stream i).toInt.bmod (2 ^ 32)

def nameRead : String := nameIn stream i (nameTableRead stream)

def dataRead : Bytes := slice stream (dataPosition stream i).toNat (sizeRead stream i).toNat

def HeaderRefused : Prop :=
  stream.length < 16 ∨ asciiGetString (stream.take 4) ≠ headerMagic

/-- The entry is cut off, its name has no end, or its contents have no place or size. -/
def EntryRefused : Prop :=
  stream.length < 16 + 24 * (i + 1) ∨ nameBytes stream i (nameTableRead stream) = none ∨
    dataPosition stream i < 0 ∨ sizeRead stream i < 0 ∨ maxArrayLength < sizeRead stream i

/-- Entries in range, each with a file of its own; where the size of the entries wraps around, the
bytes in the wrong places must happen to be the right ones. -/
def WellFormed (fs : FileSystem) (dirPath : String) : Prop :=
  0 ≤ (fileCount stream).toInt ∧
    (∀ i < entries stream, InRange stream i ∧ (dataSize stream i).toInt < 2 ^ 31 ∧
      (2 ^ 31 ≤ 24 * (fileCount stream).toInt →
        nameRead stream i = entryName stream i ∧ dataRead stream i = entryData stream i)) ∧
      DistinctFiles fs dirPath stream

end Read

variable {stream : Bytes} {i : ℕ} {br br' : BinaryReader} {D T : Int64} {e : FileInfo}

theorem readInt64_of_le (h : br.position + 8 ≤ br.bytes.length) :
    (readInt64 : Reads AppError Int64) br =
      .ok ((ulongOfBytes (slice br.bytes br.position 8)).toInt64, br.advance 8) :=
  map_of_ok (readUInt64_of_le h)

/-- The fields of an entry that is not cut off. -/
theorem fileEntry_of_le (h : 16 + 24 * (i + 1) ≤ stream.length) :
    fileEntry D T ⟨stream, 16 + 24 * i⟩ = (do
      setPosition (T + (strOff stream i).toInt64).toInt
      let strBuff ← readName
      setPosition (D + dataOff stream i).toInt
      let data ← readBytes (dataSize stream i).toInt32.toInt
      setPosition ((16 + 24 * (i + 1) : ℕ) : ℤ)
      return ⟨removeNul (Utf8.getString strBuff), data⟩ : Reads AppError FileInfo)
        ⟨stream, 16 + 24 * (i + 1)⟩ := by
  unfold fileEntry
  rw [bind_of_ok (readInt64_of_le (by change 16 + 24 * i + 8 ≤ stream.length; omega)),
    bind_of_ok (readInt64_of_le (by change 16 + 24 * i + 8 + 8 ≤ stream.length; omega)),
    bind_of_ok (readInt32_of_le (by change 16 + 24 * i + 8 + 8 + 4 ≤ stream.length; omega)),
    bind_of_ok (readInt32_of_le (by change 16 + 24 * i + 8 + 8 + 4 + 4 ≤ stream.length; omega))]
  rfl

theorem readInt64_eq_ok {x : Int64} (h : (readInt64 : Reads AppError Int64) br = .ok (x, br')) :
    br' = br.advance 8 := by
  cases hfill : (fillBuffer 8 : Reads AppError Bytes) br with
  | error e =>
    rw [readInt64, readUInt64, map_of_error (map_of_error hfill)] at h
    cases h
  | ok r =>
    rw [readInt64, readUInt64, map_of_ok (map_of_ok hfill)] at h
    cases h
    exact (fillBuffer_eq_ok hfill).2.2

theorem fileEntry_of_lt (h : stream.length < 16 + 24 * (i + 1)) :
    ∃ x, fileEntry D T ⟨stream, 16 + 24 * i⟩ = .error x := by
  cases hentry : fileEntry D T ⟨stream, 16 + 24 * i⟩ with
  | error x => exact ⟨x, rfl⟩
  | ok r =>
    obtain ⟨dataOff, br₁, h₁, hentry⟩ := bind_eq_ok.mp hentry
    obtain ⟨dataSize, br₂, h₂, hentry⟩ := bind_eq_ok.mp hentry
    obtain ⟨strOff, br₃, h₃, hentry⟩ := bind_eq_ok.mp hentry
    obtain ⟨padding, br₄, h₄, -⟩ := bind_eq_ok.mp hentry
    obtain rfl := readInt64_eq_ok h₁
    obtain rfl := readInt64_eq_ok h₂
    obtain ⟨-, rfl⟩ := readInt32_eq_ok h₃
    obtain ⟨hslice, -⟩ := readInt32_eq_ok h₄
    -- the padding is the last thing that is read of an entry
    have hlen := congrArg List.length hslice
    rw [length_intBytes, length_slice] at hlen
    change min 4 (stream.length - (16 + 24 * i + 8 + 8 + 4)) = 4 at hlen
    omega

theorem bmod_eq_of_bmod_nonneg {x : ℤ} {m : ℕ} (hx : 0 ≤ x) (hlt : x < m) (h : 0 ≤ x.bmod m) :
    x.bmod m = x := by
  rw [Int.bmod_def, Int.emod_eq_of_lt hx hlt] at h ⊢
  split_ifs at h ⊢
  · rfl
  · omega

theorem path_inj {dirPath name name' : String} :
    path dirPath name = path dirPath name' ↔ name = name' :=
  String.append_right_inj _

theorem nameTableRead_bounds (stream : Bytes) :
    -2 ^ 31 ≤ nameTableRead stream ∧ nameTableRead stream < 2 ^ 32 := by
  have hle := Int.le_bmod (x := 24 * (fileCount stream).toInt) (m := 2 ^ 32) (by decide)
  have hlt := Int.bmod_lt (x := 24 * (fileCount stream).toInt) (m := 2 ^ 32) (by decide)
  unfold nameTableRead
  omega

theorem namePosition_eq (hT : T.toInt = nameTableRead stream) :
    (T + (strOff stream i).toInt64).toInt = nameTableRead stream + (strOff stream i).toInt := by
  have hbounds := nameTableRead_bounds stream
  have hle := (strOff stream i).le_toInt
  have hlt := (strOff stream i).toInt_lt
  rw [Int64.toInt_add, Int32.toInt_toInt64, hT]
  exact Int.bmod_eq_of_le (by omega) (by omega)

theorem dataPosition_eq (hD : D.toInt = dataTableRead stream) :
    (D + dataOff stream i).toInt = dataPosition stream i := by
  rw [Int64.toInt_add, hD, dataPosition]

theorem sizeRead_eq : (dataSize stream i).toInt32.toInt = sizeRead stream i :=
  Int64.toInt_toInt32 _

theorem setPosition_of_nonneg {p : ℤ} (h : 0 ≤ p) :
    (setPosition p : Reads AppError Unit) br = .ok ((), { br with position := p.toNat }) := by
  rw [setPosition, if_neg (by omega)]

theorem setPosition_of_neg {p : ℤ} (h : p < 0) :
    (setPosition p : Reads AppError Unit) br = .error .argumentOutOfRange := by
  rw [setPosition, if_pos h]

/-- Setting the position and reading a name there. -/
theorem nameBytes_eq_some {table : ℤ} {w : Bytes} (h : nameBytes stream i table = some w) :
    0 ≤ table + (strOff stream i).toInt ∧
      untilNul (stream.drop (table + (strOff stream i).toInt).toNat) = some w := by
  unfold nameBytes at h
  split_ifs at h with hneg
  exact ⟨by omega, h⟩

theorem readName_of_untilNul {w : Bytes} {n : ℕ} (h : untilNul (stream.drop n) = some w) :
    readName ⟨stream, n⟩ = .ok (w, ⟨stream, n + w.length⟩) := by
  have hrest : (⟨stream, n⟩ : BinaryReader).rest = stream.drop n := rfl
  rw [readName, hrest, h]
  rfl

theorem readName_of_none {n : ℕ} (h : untilNul (stream.drop n) = none) :
    readName ⟨stream, n⟩ = .error .endOfStream := by
  have hrest : (⟨stream, n⟩ : BinaryReader).rest = stream.drop n := rfl
  rw [readName, hrest, h]

/-- An entry that is not refused gives the name and the contents at the places it is read for. -/
theorem fileEntry_of_not_refused (hT : T.toInt = nameTableRead stream)
    (hD : D.toInt = dataTableRead stream) (h : ¬ EntryRefused stream i) :
    fileEntry D T ⟨stream, 16 + 24 * i⟩ =
      .ok (⟨nameRead stream i, dataRead stream i⟩, ⟨stream, 16 + 24 * (i + 1)⟩) := by
  simp only [EntryRefused, not_or, not_lt] at h
  obtain ⟨hlen, hname, hpos, hsize, hmax⟩ := h
  obtain ⟨w, hw⟩ := Option.ne_none_iff_exists'.mp hname
  obtain ⟨hnonneg, huntil⟩ := nameBytes_eq_some hw
  have hsize' : (dataSize stream i).toInt32.toInt = ((sizeRead stream i).toNat : ℤ) := by
    rw [sizeRead_eq, Int.toNat_of_nonneg hsize]
  rw [fileEntry_of_le hlen, namePosition_eq hT, dataPosition_eq hD, hsize',
    bind_of_ok (setPosition_of_nonneg hnonneg), bind_of_ok (readName_of_untilNul huntil),
    bind_of_ok (setPosition_of_nonneg hpos), bind_of_ok (readBytes_natCast (by omega)),
    bind_of_ok (setPosition_natCast _), nameRead, nameIn, hw]
  rfl

theorem fileEntry_of_refused (hT : T.toInt = nameTableRead stream)
    (hD : D.toInt = dataTableRead stream) (h : EntryRefused stream i) :
    ∃ x, fileEntry D T ⟨stream, 16 + 24 * i⟩ = .error x := by
  by_cases hlen : stream.length < 16 + 24 * (i + 1)
  · exact fileEntry_of_lt hlen
  rw [fileEntry_of_le (by omega), namePosition_eq hT, dataPosition_eq hD, sizeRead_eq]
  by_cases hneg : nameTableRead stream + (strOff stream i).toInt < 0
  · exact ⟨_, bind_of_error (setPosition_of_neg hneg)⟩
  rw [bind_of_ok (setPosition_of_nonneg (by omega))]
  cases huntil : untilNul
      (stream.drop (nameTableRead stream + (strOff stream i).toInt).toNat) with
  | none => exact ⟨_, bind_of_error (readName_of_none huntil)⟩
  | some w =>
    have hname : nameBytes stream i (nameTableRead stream) = some w := by
      rw [nameBytes, if_neg hneg, huntil]
    rw [bind_of_ok (readName_of_untilNul huntil)]
    by_cases hpos : dataPosition stream i < 0
    · exact ⟨_, bind_of_error (setPosition_of_neg hpos)⟩
    rw [bind_of_ok (setPosition_of_nonneg (by omega))]
    by_cases hsize : sizeRead stream i < 0
    · exact ⟨_, bind_of_error (by rw [readBytes, if_pos hsize])⟩
    · have hmax : maxArrayLength < sizeRead stream i := by
        obtain h | h | h | h | h := h
        · exact absurd h hlen
        · rw [hname] at h
          exact absurd h (by simp)
        · exact absurd h hpos
        · exact absurd h hsize
        · exact h
      exact ⟨_, bind_of_error (by rw [readBytes, if_neg hsize, if_pos hmax])⟩

/-! ### All entries -/

section Entries

variable {dirPath : String} {n k : ℕ}

theorem extractEntries_of_not_refused (hT : T.toInt = nameTableRead stream)
    (hD : D.toInt = dataTableRead stream) (h : ∀ i < n, ¬ EntryRefused stream (k + i)) :
    extractEntries dirPath D T n ⟨stream, 16 + 24 * k⟩ =
      ⟨(List.range' k n).map fun i => (path dirPath (nameRead stream i), dataRead stream i),
        .ok ()⟩ := by
  induction n generalizing k with
  | zero => rfl
  | succ n ih =>
    have hfirst := fileEntry_of_not_refused hT hD (h 0 (by omega))
    have hrest := ih (k := k + 1) fun i hi => by
      rw [show k + 1 + i = k + (i + 1) by omega]
      exact h (i + 1) (by omega)
    rw [Nat.add_zero] at hfirst
    simp only [extractEntries, hfirst, hrest, List.range'_succ, List.map_cons]

theorem extractEntries_of_refused (hT : T.toInt = nameTableRead stream)
    (hD : D.toInt = dataTableRead stream) (h : ∃ i < n, EntryRefused stream (k + i)) :
    (extractEntries dirPath D T n ⟨stream, 16 + 24 * k⟩).outcome ≠ .ok () := by
  induction n generalizing k with
  | zero =>
    obtain ⟨i, hi, -⟩ := h
    omega
  | succ n ih =>
    by_cases hfirst : EntryRefused stream k
    · obtain ⟨x, hx⟩ := fileEntry_of_refused hT hD hfirst
      simp only [extractEntries, hx]
      simp
    · have hentry := fileEntry_of_not_refused hT hD hfirst
      simp only [extractEntries, hentry]
      refine ih (k := k + 1) ?_
      obtain ⟨i, hi, hrefused⟩ := h
      obtain _ | i := i
      · exact absurd hrefused hfirst
      · exact ⟨i, by omega, by rwa [show k + 1 + i = k + (i + 1) by omega]⟩

end Entries

/-! ### The header -/

/-- Behind the magic word the header goes on. -/
theorem readHeader_of_magic (h : asciiGetString (stream.take 4) = headerMagic) :
    readHeader (ofBytes stream) = (do
      let fileCount ← readInt32
      let strTableLenght ← readInt32
      let _ ← readInt32
      let fileTableOffset ← getPosition
      let strTableOffset := Int64.ofNat fileTableOffset + (fileCount * entrySize).toInt64
      let fileDataOff := strTableOffset + strTableLenght.toInt64
      return (fileCount, strTableOffset, fileDataOff) : Reads AppError (Int32 × Int64 × Int64))
        ⟨stream, 4⟩ := by
  have hbytes : asciiGetBytes headerMagic = stream.take 4 := by
    rw [← h]
    exact asciiGetBytes_asciiGetString (by rw [h]; decide)
  have hrest : (ofBytes stream).rest = asciiGetBytes headerMagic ++ stream.drop 4 := by
    rw [hbytes, List.take_append_drop]
    rfl
  unfold readHeader
  rw [readMagic_of_rest _ hrest length_headerMagic (by decide)]
  rfl

theorem readHeader_of_not_refused (h : ¬ HeaderRefused stream) :
    ∃ T D, readHeader (ofBytes stream) = .ok ((fileCount stream, T, D), ⟨stream, 16 + 24 * 0⟩) ∧
      T.toInt = nameTableRead stream ∧ D.toInt = dataTableRead stream := by
  simp only [HeaderRefused, not_or, not_lt, not_not] at h
  have hT : (Int64.ofNat 16 + (fileCount stream * entrySize).toInt64).toInt =
      nameTableRead stream := by
    have hbounds := nameTableRead_bounds stream
    have hentry : entrySize.toInt = 24 := by decide
    rw [Int64.toInt_add, Int32.toInt_toInt64, Int32.toInt_mul, hentry, mul_comm,
      Int64.toInt_ofNat_of_lt (by decide)]
    exact Int.bmod_eq_of_le (by unfold nameTableRead at hbounds; omega)
      (by unfold nameTableRead at hbounds; omega)
  have hD : (Int64.ofNat 16 + (fileCount stream * entrySize).toInt64 +
      (strTableLenght stream).toInt64).toInt = dataTableRead stream := by
    have hbounds := nameTableRead_bounds stream
    have hle := (strTableLenght stream).le_toInt
    have hlt := (strTableLenght stream).toInt_lt
    rw [Int64.toInt_add, hT, Int32.toInt_toInt64, dataTableRead]
    exact Int.bmod_eq_of_le (by omega) (by omega)
  refine ⟨_, _, ?_, hT, hD⟩
  rw [readHeader_of_magic h.2,
    bind_of_ok (readInt32_of_le (by change 4 + 4 ≤ stream.length; omega)),
    bind_of_ok (readInt32_of_le (by change 4 + 4 + 4 ≤ stream.length; omega)),
    bind_of_ok (readInt32_of_le (by change 4 + 4 + 4 + 4 ≤ stream.length; omega))]
  rfl

theorem readHeader_of_refused (h : HeaderRefused stream) :
    ∃ x, readHeader (ofBytes stream) = .error x := by
  cases hheader : readHeader (ofBytes stream) with
  | error x => exact ⟨x, rfl⟩
  | ok r =>
    by_cases hmagic : asciiGetString (stream.take 4) = headerMagic
    · rw [readHeader_of_magic hmagic] at hheader
      obtain ⟨fileCount, br₁, h₁, hheader⟩ := bind_eq_ok.mp hheader
      obtain ⟨strTableLenght, br₂, h₂, hheader⟩ := bind_eq_ok.mp hheader
      obtain ⟨padding, br₃, h₃, -⟩ := bind_eq_ok.mp hheader
      obtain ⟨-, rfl⟩ := readInt32_eq_ok h₁
      obtain ⟨-, rfl⟩ := readInt32_eq_ok h₂
      obtain ⟨hslice, -⟩ := readInt32_eq_ok h₃
      have hlen := congrArg List.length hslice
      rw [length_intBytes, length_slice] at hlen
      change min 4 (stream.length - (4 + 4 + 4)) = 4 at hlen
      obtain hshort | hmagic' := h
      · omega
      · exact absurd hmagic hmagic'
    · have hread : (readBytes 4 : Reads AppError Bytes) (ofBytes stream) =
          .ok (stream.take 4, (ofBytes stream).advance (stream.take 4).length) :=
        readBytes_natCast (n := 4) (by decide)
      unfold readHeader at hheader
      rw [bind_of_ok hread, if_pos hmagic] at hheader
      cases hheader

/-! ### When an extraction is exact -/

theorem extractFiles_of_headerRefused (dirPath : String) (h : HeaderRefused stream) :
    (extractFiles dirPath stream).outcome ≠ .ok () := by
  obtain ⟨x, hx⟩ := readHeader_of_refused h
  rw [extractFiles, hx]
  simp

theorem extractFiles_of_entryRefused (dirPath : String) (hheader : ¬ HeaderRefused stream)
    (h : ∃ i < entries stream, EntryRefused stream i) :
    (extractFiles dirPath stream).outcome ≠ .ok () := by
  obtain ⟨T, D, hread, hT, hD⟩ := readHeader_of_not_refused hheader
  rw [extractFiles, hread]
  exact extractEntries_of_refused (k := 0) hT hD (by simp only [Nat.zero_add]; exact h)

theorem extractFiles_of_not_refused (dirPath : String) (hheader : ¬ HeaderRefused stream)
    (h : ∀ i < entries stream, ¬ EntryRefused stream i) :
    extractFiles dirPath stream =
      ⟨(List.range (entries stream)).map fun i =>
        (path dirPath (nameRead stream i), dataRead stream i), .ok ()⟩ := by
  obtain ⟨T, D, hread, hT, hD⟩ := readHeader_of_not_refused hheader
  rw [extractFiles, hread, List.range_eq_range']
  exact extractEntries_of_not_refused (k := 0) hT hD (by simp only [Nat.zero_add]; exact h)

/-- Below the overflow an entry in range is read where it is declared to be. -/
theorem read_eq_of_inRange (hrefused : ¬ EntryRefused stream i)
    (hcount : 0 ≤ (fileCount stream).toInt) (hwrap : 24 * (fileCount stream).toInt < 2 ^ 31)
    (hrange : InRange stream i) (hsize : (dataSize stream i).toInt < 2 ^ 31) :
    nameRead stream i = entryName stream i ∧ dataRead stream i = entryData stream i := by
  simp only [EntryRefused, not_or, not_lt] at hrefused
  obtain ⟨-, -, hpos, -, -⟩ := hrefused
  obtain ⟨hstr, ⟨w, -, hend⟩, hoff, hsize₀, -⟩ := hrange
  have hname : nameTableRead stream = nameTable stream := by
    rw [nameTableRead, nameTable, Int.bmod_eq_of_le (by omega) (by omega)]
  have hplace : dataPosition stream i = dataTable stream + (dataOff stream i).toInt := by
    have hdata : dataTableRead stream = dataTable stream := by
      rw [dataTableRead, hname, dataTable]
    rw [dataPosition, hdata] at hpos ⊢
    have hlt := (strTableLenght stream).toInt_lt
    have hlt' := (dataOff stream i).toInt_lt
    refine bmod_eq_of_bmod_nonneg ?_ ?_ hpos <;> unfold dataTable nameTable <;> omega
  have hcast : sizeRead stream i = (dataSize stream i).toInt := by
    rw [sizeRead, Int.bmod_eq_of_le (by omega) (by omega)]
  rw [nameRead, entryName, dataRead, entryData, hname, hplace, hcast]
  exact ⟨rfl, rfl⟩

/-- No array holds contents of 2 GiB. -/
theorem dataSize_lt (hrefused : ¬ EntryRefused stream i) (hcount : 0 ≤ (fileCount stream).toInt)
    (hrange : InRange stream i) (hdata : dataRead stream i = entryData stream i) :
    (dataSize stream i).toInt < 2 ^ 31 := by
  simp only [EntryRefused, not_or, not_lt] at hrefused
  obtain ⟨-, -, -, -, hmax⟩ := hrefused
  obtain ⟨hstr, ⟨w, -, hend⟩, hoff, hsize, hdataEnd⟩ := hrange
  have hplace : 0 ≤ dataTable stream := by
    unfold dataTable nameTable
    omega
  have hlen := congrArg List.length hdata
  rw [dataRead, entryData, length_slice, length_slice] at hlen
  have hlt := maxArrayLength_lt
  omega

/-- Files of their own keep what is written to them. -/
theorem contents_of_distinctFiles {fs : FileSystem} {dirPath : String}
    (hdistinct : DistinctFiles fs dirPath stream)
    (htakes : ∀ i < entries stream, fs.place (path dirPath (entryName stream i)) ≠ none)
    (hwritten : (extractFiles dirPath stream).written = (List.range (entries stream)).map fun i =>
      (path dirPath (entryName stream i), entryData stream i))
    (tree : List String → Option Bytes) (hi : i < entries stream) :
    ∃ p, fs.place (path dirPath (entryName stream i)) = some p ∧
      (extractFiles dirPath stream).written.foldl fs.write tree p = some (entryData stream i) := by
  obtain ⟨p, hp⟩ := Option.ne_none_iff_exists'.mp (htakes i hi)
  have hmem : (path dirPath (entryName stream i), entryData stream i) ∈
      (extractFiles dirPath stream).written := by
    rw [hwritten]
    exact List.mem_map_of_mem (List.mem_range.mpr hi)
  have hnd : ((extractFiles dirPath stream).written.map fun f => fs.place f.1).Nodup := by
    rw [hwritten, List.map_map]
    exact hdistinct
  exact ⟨p, hp, FileSystem.foldl_write_of_mem hnd hmem hp⟩

theorem extracted_iff {fs : FileSystem} {dirPath : String}
    (hrefused : ∀ i < entries stream, ¬ EntryRefused stream i)
    (htakes : ∀ i < entries stream, fs.place (path dirPath (nameRead stream i)) ≠ none)
    (hwritten : (extractFiles dirPath stream).written = (List.range (entries stream)).map fun i =>
      (path dirPath (nameRead stream i), dataRead stream i)) :
    Extracted fs dirPath stream ↔ WellFormed stream fs dirPath := by
  constructor
  · rintro ⟨hcount, hrange, hdistinct, hdeclared, -⟩
    have hread : ∀ i < entries stream,
        nameRead stream i = entryName stream i ∧ dataRead stream i = entryData stream i := by
      intro i hi
      have hfile := List.map_inj_left.mp (hwritten.symm.trans hdeclared) i (List.mem_range.mpr hi)
      obtain ⟨hpath, hdata⟩ := Prod.mk.inj hfile
      exact ⟨path_inj.mp hpath, hdata⟩
    refine ⟨hcount, fun i hi => ⟨hrange i hi, ?_, fun _ => hread i hi⟩, hdistinct⟩
    exact dataSize_lt (hrefused i hi) hcount (hrange i hi) (hread i hi).2
  · rintro ⟨hcount, hentries, hdistinct⟩
    have hread : ∀ i < entries stream,
        nameRead stream i = entryName stream i ∧ dataRead stream i = entryData stream i := by
      intro i hi
      obtain ⟨hrange, hsize, hwrap⟩ := hentries i hi
      by_cases h : 2 ^ 31 ≤ 24 * (fileCount stream).toInt
      · exact hwrap h
      · exact read_eq_of_inRange (hrefused i hi) hcount (by omega) hrange hsize
    have hdeclared : (extractFiles dirPath stream).written =
        (List.range (entries stream)).map fun i =>
          (path dirPath (entryName stream i), entryData stream i) := by
      rw [hwritten]
      refine List.map_inj_left.mpr fun i hi => ?_
      rw [(hread i (List.mem_range.mp hi)).1, (hread i (List.mem_range.mp hi)).2]
    have htakes' : ∀ i < entries stream,
        fs.place (path dirPath (entryName stream i)) ≠ none := by
      intro i hi
      rw [← (hread i hi).1]
      exact htakes i hi
    exact ⟨hcount, fun i hi => (hentries i hi).1, hdistinct, hdeclared,
      fun tree i hi => contents_of_distinctFiles hdistinct htakes' hdeclared tree hi⟩

/-- An extraction is exact if something is refused, or if every entry is in range and has a file of
its own. -/
theorem extractsExactly_iff (fs : FileSystem) (dirPath : String) (stream : Bytes) :
    ExtractsExactly fs dirPath stream ↔
      HeaderRefused stream ∨
        (∃ i < entries stream, EntryRefused stream i ∨
          fs.place (path dirPath (nameRead stream i)) = none) ∨
            WellFormed stream fs dirPath := by
  unfold ExtractsExactly ReturnsNormally
  by_cases hheader : HeaderRefused stream
  · simp [hheader, extractFiles_of_headerRefused dirPath hheader]
  by_cases hentry : ∃ i < entries stream, EntryRefused stream i
  · have hne := extractFiles_of_entryRefused dirPath hheader hentry
    obtain ⟨i, hi, hrefused⟩ := hentry
    exact iff_of_true (fun h => absurd h.1 hne) (.inr (.inl ⟨i, hi, .inl hrefused⟩))
  push Not at hentry
  have hextract := extractFiles_of_not_refused dirPath hheader hentry
  by_cases hplace : ∃ i < entries stream, fs.place (path dirPath (nameRead stream i)) = none
  · obtain ⟨i, hi, hplace⟩ := hplace
    refine iff_of_true (fun h => ?_) (.inr (.inl ⟨i, hi, .inr hplace⟩))
    have hmem : (path dirPath (nameRead stream i), dataRead stream i) ∈
        (extractFiles dirPath stream).written := by
      rw [hextract]
      exact List.mem_map_of_mem (List.mem_range.mpr hi)
    have htakes := h.2 _ hmem
    rw [FileSystem.takes, hplace] at htakes
    cases htakes
  push Not at hplace
  have hok : (extractFiles dirPath stream).outcome = .ok () ∧
      ∀ f ∈ (extractFiles dirPath stream).written, fs.takes f.1 = true := by
    rw [hextract]
    refine ⟨rfl, fun f hf => ?_⟩
    obtain ⟨i, hi, rfl⟩ := List.mem_map.mp hf
    exact Option.isSome_iff_ne_none.mpr (hplace i (List.mem_range.mp hi))
  have hnone : ¬ ∃ i < entries stream,
      EntryRefused stream i ∨ fs.place (path dirPath (nameRead stream i)) = none := by
    rintro ⟨i, hi, h | h⟩
    · exact hentry i hi h
    · exact hplace i hi h
  rw [or_iff_right hheader, or_iff_right hnone,
    ← extracted_iff hentry hplace (congrArg Extraction.written hextract)]
  exact ⟨fun h => h hok, fun h _ => h⟩

/-- One entry of five bytes, of which two are there. -/
def cutOff : Bytes :=
  asciiGetBytes headerMagic ++ (intBytes 1 ++ (intBytes 2 ++ (intBytes 0 ++
    (longBytes 0 ++ (longBytes 5 ++ (intBytes 0 ++ (intBytes 0 ++ [97, 0, 1, 2])))))))

theorem not_extractsExactly_cutOff :
    ¬ ExtractsExactly (.relativeTo ["work"]) "out" cutOff := by
  intro h
  have hreturns : ReturnsNormally (.relativeTo ["work"]) (extractFiles "out" cutOff) :=
    ⟨rfl, fun _ _ => rfl⟩
  obtain ⟨-, -, -, -, hend⟩ := (h hreturns).inRange 0 (by decide)
  exact absurd hend (by decide)

/-- Two entries `a` and `.\a`, of one byte each: the second goes over the first. -/
def twoPaths : Bytes :=
  asciiGetBytes headerMagic ++ (intBytes 2 ++ (intBytes 6 ++ (intBytes 0 ++
    (longBytes 0 ++ (longBytes 1 ++ (intBytes 0 ++ (intBytes 0 ++
      (longBytes 1 ++ (longBytes 1 ++ (intBytes 2 ++ (intBytes 0 ++
        [97, 0, 46, 92, 97, 0, 1, 2])))))))))))

example : entryName twoPaths 0 ≠ entryName twoPaths 1 ∧
    ¬ DistinctFiles (.relativeTo ["work"]) "out" twoPaths := by
  unfold DistinctFiles
  decide

end Sp2Module.Pfs0
