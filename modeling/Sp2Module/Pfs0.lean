import Sp2Module.Alignment
import Sp2Module.Nso
import Sp2Module.Utf8

/-!
# PFS0 archives

A header, a table of entries, the names one after another with a NUL after each, padding and the
contents of the files. The reader finds the contents behind the names by the length of the name
table in the header; the writer has put them at the next multiple of 32 in the stream.
-/

namespace Sp2Module.Pfs0

open BinaryReader

structure FileInfo where
  name : String
  data : Bytes
deriving DecidableEq, Repr

def headerMagic : String := "PFS0"

def entrySize : Int32 := 0x18

def nul : Char := Char.ofNat 0

/-! ### Reading -/

/-- The bytes up to the first NUL and the NUL itself. -/
def untilNul : Bytes → Option Bytes
  | [] => none
  | b :: bs => if b = 0 then some [b] else (untilNul bs).map (b :: ·)

def readName : Reads AppError Bytes := fun br =>
  match untilNul br.rest with
  | none => .error .endOfStream
  | some strBuff => .ok (strBuff, br.advance strBuff.length)

/-- `Replace("\0", "")`. -/
def removeNul (s : String) : String := String.ofList (s.toList.filter fun c => c ≠ nul)

/-- `FileEntry(br, dataTableOff, strTableOff, strTableLen)`. -/
def fileEntry (dataTableOff strTableOff : Int64) : Reads AppError FileInfo := do
  let dataOff ← readInt64
  let dataSize ← readInt64
  let strOff ← readInt32
  let _ ← readInt32
  let tempPos ← getPosition
  setPosition (strTableOff + strOff.toInt64).toInt
  let strBuff ← readName
  let name := removeNul (Utf8.getString strBuff)
  setPosition (dataTableOff + dataOff).toInt
  let data ← readBytes dataSize.toInt32.toInt
  setPosition tempPos
  return ⟨name, data⟩

/-- The files written so far, by path, and how the extraction ended. -/
structure Extraction where
  written : List (String × Bytes)
  outcome : Except Exception Unit

def path (dirPath name : String) : String := dirPath ++ "\\" ++ name

def extractEntries (dirPath : String) (dataTableOff strTableOff : Int64) :
    ℕ → BinaryReader → Extraction
  | 0, _ => ⟨[], .ok ()⟩
  | n + 1, br =>
    match fileEntry dataTableOff strTableOff br with
    | .error x => ⟨[], .error x⟩
    | .ok (entry, br') =>
      let rest := extractEntries dirPath dataTableOff strTableOff n br'
      ⟨(path dirPath entry.name, entry.data) :: rest.written, rest.outcome⟩

/-- The number of files, the offset of the names and the offset of the contents. -/
def readHeader : Reads AppError (Int32 × Int64 × Int64) := do
  let magic ← readBytes 4
  if asciiGetString magic ≠ headerMagic then throw (.app (.pfs0 "Invalid magic"))
  let fileCount ← readInt32
  let strTableLenght ← readInt32
  let _ ← readInt32
  let fileTableOffset ← getPosition
  let strTableOffset := Int64.ofNat fileTableOffset + (fileCount * entrySize).toInt64
  let fileDataOff := strTableOffset + strTableLenght.toInt64
  return (fileCount, strTableOffset, fileDataOff)

def extractFiles (dirPath : String) (stream : Bytes) : Extraction :=
  match readHeader (.ofBytes stream) with
  | .error x => ⟨[], .error x⟩
  | .ok ((fileCount, strTableOffset, fileDataOff), br) =>
    extractEntries dirPath fileDataOff strTableOffset fileCount.toInt.toNat br

/-! ### Writing -/

/-- The offset of each name in the table of names, and the length of the table. -/
def strTableOffs : Int32 → List FileInfo → List Int32 × Int32
  | strLastOff, [] => ([], strLastOff)
  | strLastOff, f :: fs =>
    let (offs, last) := strTableOffs (strLastOff + Int32.ofNat (Utf8.getByteCount f.name + 1)) fs
    (strLastOff :: offs, last)

def fileTable : ℕ → List (FileInfo × Int32) → Bytes
  | _, [] => []
  | lastFileOff, (f, strOff) :: fs =>
    longBytes lastFileOff ++ (longBytes f.data.length ++ (intBytes strOff ++ (intBytes 0 ++
      fileTable (lastFileOff + f.data.length) fs)))

def strTable (files : List FileInfo) : Bytes :=
  files.flatMap fun f => Utf8.getBytes (f.name ++ String.singleton nul)

/-- `File.ReadAllBytes`. -/
def readAllBytes (f : FileInfo) : Except Exception Bytes :=
  if 2 ^ 31 ≤ f.data.length then .error .io
  else if maxArrayLength < f.data.length then .error .outOfMemory
  else .ok f.data

def header (fileCount strLastOff : Int32) : Bytes :=
  asciiGetBytes headerMagic ++ (intBytes fileCount ++ (intBytes strLastOff ++ intBytes 0))

/-- What is written before the contents of the files. -/
def buildTables (files : List FileInfo) : Bytes :=
  let (offs, strLastOff) := strTableOffs 0 files
  let strLastOff := intOfLong (alignUp 0x20 strLastOff.toInt)
  let stream := header (Int32.ofNat files.length) strLastOff ++
    (fileTable 0 (files.zip offs) ++ strTable files)
  stream ++ List.replicate (alignPad 0x20 stream.length).toNat 0

def buildPfs0 (files : List FileInfo) : Except Exception Bytes := do
  let data ← files.mapM readAllBytes
  return buildTables files ++ data.flatten

end Sp2Module.Pfs0
