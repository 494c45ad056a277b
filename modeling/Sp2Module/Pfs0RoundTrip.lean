import Sp2Module.Pfs0

/-!
# What an extraction gives back

The reader finds every name the writer wrote. It cuts the contents out of the stream from an offset
of its own, so what it extracts are the contents exactly when the stream holds them there as well.
-/

namespace Sp2Module.Pfs0

open BinaryReader

/-! ### Names -/

theorem untilNul_append {w r : Bytes} (h : 0 ∉ w) : untilNul (w ++ 0 :: r) = some (w ++ [0]) := by
  induction w with
  | nil => simp [untilNul]
  | cons b bs ih =>
    rw [List.mem_cons, not_or] at h
    simp only [List.cons_append, untilNul, if_neg (Ne.symm h.1), ih h.2, Option.map_some]

def NulFree (s : String) : Prop := ∀ c ∈ s.toList, c ≠ nul

theorem NulFree.zero_not_mem {s : String} (h : NulFree s) : 0 ∉ Utf8.getBytes s := by
  intro hzero
  obtain ⟨c, hc, hz⟩ := Utf8.zero_mem_getBytes hzero
  refine h c hc ?_
  rw [← Char.ofNat_toNat c, hz]
  rfl

theorem NulFree.removeNul {s : String} (h : NulFree s) :
    removeNul (s ++ String.singleton nul) = s := by
  have hs : s.toList.filter (fun c => c ≠ nul) = s.toList :=
    List.filter_eq_self.mpr fun c hc => by simpa using h c hc
  have hnul : (String.singleton nul).toList.filter (fun c => c ≠ nul) = [] := by simp
  rw [Pfs0.removeNul, String.toList_append, List.filter_append, hs, hnul, List.append_nil,
    String.ofList_toList]

theorem getBytes_name (s : String) :
    Utf8.getBytes (s ++ String.singleton nul) = Utf8.getBytes s ++ [0] := by
  rw [Utf8.getBytes_append]
  rfl

theorem readName_of_rest {br : BinaryReader} {s : String} {r : Bytes} (hs : NulFree s)
    (h : br.rest = Utf8.getBytes (s ++ String.singleton nul) ++ r) :
    readName br = .ok (Utf8.getBytes (s ++ String.singleton nul),
      br.advance (Utf8.getBytes (s ++ String.singleton nul)).length) := by
  have huntil := untilNul_append (r := r) hs.zero_not_mem
  rw [getBytes_name, List.append_assoc, List.singleton_append] at h
  rw [readName, h, huntil, getBytes_name]

/-! ### Entries -/

section Entry

variable {br : BinaryReader} {dataTableOff strTableOff : Int64} {D S : ℕ} {r r' : Bytes}

/-- An entry gives the name at its name offset, and what the stream holds at its data offset. -/
theorem fileEntry_of_rest {f : FileInfo} {dataOff strOff : ℕ} (hD : dataTableOff.toInt = D)
    (hS : strTableOff.toInt = S) (hs : NulFree f.name)
    (h : br.rest = longBytes dataOff ++ (longBytes f.data.length ++
      (intBytes (Int32.ofNat strOff) ++ (intBytes 0 ++ r))))
    (hname : br.bytes.drop (S + strOff) = Utf8.getBytes (f.name ++ String.singleton nul) ++ r')
    (hdata : D + dataOff < 2 ^ 63) (hstr : S + strOff < 2 ^ 63) (hstr' : strOff < 2 ^ 31)
    (hlen : f.data.length ≤ maxArrayLength) :
    fileEntry dataTableOff strTableOff br =
      .ok (⟨f.name, slice br.bytes (D + dataOff) f.data.length⟩, br.advance 24) := by
  have hmax := maxArrayLength_lt
  have h1 := rest_advance h (length_longBytes _)
  have h2 := rest_advance h1 (length_longBytes _)
  have h3 := rest_advance h2 (length_intBytes _)
  have hstrpos : (strTableOff + (Int32.ofNat strOff).toInt64).toInt = ((S + strOff : ℕ) : ℤ) := by
    rw [Int64.toInt_add, Int32.toInt_toInt64, Int32.toInt_ofNat_of_lt hstr', hS]
    exact Int.bmod_eq_of_le (by omega) (by omega)
  have hdatapos : (dataTableOff + Int64.ofInt dataOff).toInt = ((D + dataOff : ℕ) : ℤ) := by
    rw [Int64.toInt_add, Int64.toInt_ofInt_of_le (by omega) (by omega), hD]
    exact Int.bmod_eq_of_le (by omega) (by omega)
  have hsize : (Int64.ofInt (f.data.length : ℤ)).toInt32.toInt = (f.data.length : ℤ) := by
    rw [Int64.toInt_toInt32, Int64.toInt_ofInt_of_le (by omega) (by omega)]
    exact Int.bmod_eq_of_le (by omega) (by omega)
  have hname' : BinaryReader.rest { br.advance 24 with position := S + strOff } =
      Utf8.getBytes (f.name ++ String.singleton nul) ++ r' := hname
  unfold fileEntry
  rw [bind_of_ok (readInt64_of_rest h), bind_of_ok (readInt64_of_rest h1),
    bind_of_ok (readInt32_of_rest h2), bind_of_ok (readInt32_of_rest h3), hstrpos, hdatapos, hsize]
  have hpos : (getPosition : Reads AppError ℕ) ((((br.advance 8).advance 8).advance 4).advance 4) =
      .ok (br.position + 24, br.advance 24) := rfl
  rw [bind_of_ok hpos, bind_of_ok (setPosition_natCast _), bind_of_ok (readName_of_rest hs hname'),
    Utf8.getString_getBytes, hs.removeNul, bind_of_ok (setPosition_natCast _),
    bind_of_ok (readBytes_natCast hlen), bind_of_ok (setPosition_natCast _)]
  rfl

/-- The reader's loop gives every name, and cuts the contents out one after another. -/
theorem extractEntries_eq (dirPath : String) {fs : List FileInfo} (lastFileOff strLastOff : ℕ)
    (hD : dataTableOff.toInt = D) (hS : strTableOff.toInt = S)
    (hs : ∀ f ∈ fs, NulFree f.name) (hlen : ∀ f ∈ fs, f.data.length ≤ maxArrayLength)
    (h : br.rest = fileTable lastFileOff (fs.zip (strTableOffs (Int32.ofNat strLastOff) fs).1) ++ r)
    (hnames : br.bytes.drop (S + strLastOff) = strTable fs ++ r')
    (hdata : D + lastFileOff + (fs.map (·.data.length)).sum < 2 ^ 63)
    (hstr : strLastOff + (strTable fs).length < 2 ^ 31) (hS' : S < 2 ^ 62) :
    extractEntries dirPath dataTableOff strTableOff fs.length br =
      ⟨List.zipWith (fun f data => (path dirPath f.name, data)) fs
        (pieces br.bytes (D + lastFileOff) (fs.map (·.data.length))), .ok ()⟩ := by
  induction fs generalizing br lastFileOff strLastOff with
  | nil => rfl
  | cons f fs ih =>
    simp only [List.forall_mem_cons] at hs hlen
    simp only [List.map_cons, List.sum_cons] at hdata
    have hcount : Utf8.getByteCount f.name + 1 =
        (Utf8.getBytes (f.name ++ String.singleton nul)).length := by
      rw [getBytes_name, List.length_append]
      rfl
    simp only [strTable, List.flatMap_cons, List.length_append] at hstr hnames
    rw [← hcount] at hstr
    simp only [strTableOffs, ← Int32.ofNat_add, List.zip_cons_cons, fileTable,
      List.append_assoc] at h
    rw [List.append_assoc] at hnames
    have hentry := fileEntry_of_rest hD hS hs.1 h hnames (by omega) (by omega) (by omega) hlen.1
    have hrest : (br.advance 24).rest = fileTable (lastFileOff + f.data.length)
        (fs.zip (strTableOffs (Int32.ofNat (strLastOff + (Utf8.getByteCount f.name + 1))) fs).1) ++
          r := by
      have h1 := rest_advance h (length_longBytes _)
      have h2 := rest_advance h1 (length_longBytes _)
      have h3 := rest_advance h2 (length_intBytes _)
      have h4 := rest_advance h3 (length_intBytes _)
      simpa only [advance_advance] using h4
    have hdrop : (br.advance 24).bytes.drop (S + (strLastOff + (Utf8.getByteCount f.name + 1))) =
        strTable fs ++ r' := by
      rw [bytes_advance, ← Nat.add_assoc, ← List.drop_drop, hnames, hcount, List.drop_left]
      rfl
    have htail := ih _ _ hs.2 hlen.2 hrest hdrop (by omega)
      (by simp only [strTable]; omega)
    simp only [List.length_cons, extractEntries, hentry, htail, List.map_cons, pieces,
      List.zipWith_cons_cons, bytes_advance, Nat.add_assoc]

end Entry

/-! ### The tables of an archive -/

section Tables

variable {files : List FileInfo} {stream : Bytes}

theorem strTableOffs_snd (k : ℕ) (fs : List FileInfo) :
    (strTableOffs (Int32.ofNat k) fs).2 = Int32.ofNat (k + (strTable fs).length) := by
  induction fs generalizing k with
  | nil => rfl
  | cons f fs ih =>
    have hcount : Utf8.getByteCount f.name + 1 =
        (Utf8.getBytes (f.name ++ String.singleton nul)).length := by
      rw [getBytes_name, List.length_append]
      rfl
    simp only [strTableOffs, ← Int32.ofNat_add, ih, strTable, List.flatMap_cons,
      List.length_append, ← hcount, Nat.add_assoc]

theorem length_strTableOffs (k : Int32) (fs : List FileInfo) :
    (strTableOffs k fs).1.length = fs.length := by
  induction fs generalizing k with
  | nil => rfl
  | cons f fs ih => simp only [strTableOffs, List.length_cons, ih]

theorem length_fileTable (k : ℕ) (fs : List (FileInfo × Int32)) :
    (fileTable k fs).length = 24 * fs.length := by
  induction fs generalizing k with
  | nil => rfl
  | cons f fs ih =>
    simp only [fileTable, List.length_append, length_longBytes, length_intBytes, ih,
      List.length_cons]
    omega

/-- Where the writer puts the contents: the next multiple of 32 after the names. -/
def writtenOff (files : List FileInfo) : ℤ :=
  alignUp 0x20 (16 + 24 * files.length + (strTable files).length)

/-- Where the reader looks for them. -/
def readOff (files : List FileInfo) : ℤ :=
  16 + 24 * files.length + alignUp 0x20 (strTable files).length

theorem length_headerMagic : (asciiGetBytes headerMagic).length = 4 := by decide

theorem length_header (fileCount strLastOff : Int32) :
    (header fileCount strLastOff).length = 16 := by
  simp only [header, List.length_append, length_headerMagic, length_intBytes]

theorem length_entries (files : List FileInfo) :
    (fileTable 0 (files.zip (strTableOffs 0 files).1)).length = 24 * files.length := by
  rw [length_fileTable, List.length_zip, length_strTableOffs, Nat.min_self]

theorem buildTables_eq (files : List FileInfo) :
    buildTables files =
      header (Int32.ofNat files.length)
          (intOfLong (alignUp 0x20 (Int32.ofNat (strTable files).length).toInt)) ++
        (fileTable 0 (files.zip (strTableOffs 0 files).1) ++ (strTable files ++
          List.replicate (alignPad 0x20
            (16 + 24 * files.length + (strTable files).length)).toNat 0)) := by
  have hlast := strTableOffs_snd 0 files
  rw [Nat.zero_add, show Int32.ofNat 0 = 0 from rfl] at hlast
  simp only [buildTables, hlast, List.append_assoc, List.length_append, length_header,
    length_entries]
  norm_cast
  rw [Nat.add_assoc]

theorem length_buildTables (files : List FileInfo) :
    ((buildTables files).length : ℤ) = writtenOff files := by
  have hpad := alignPad_nonneg (n := 0x20)
    (a := (16 + 24 * files.length + (strTable files).length : ℤ)) (by decide)
  rw [buildTables_eq, writtenOff]
  simp only [List.length_append, length_header, length_entries, List.length_replicate]
  rw [alignPad] at hpad ⊢
  omega

theorem readAllBytes_eq_ok {f : FileInfo} {data : Bytes} :
    readAllBytes f = .ok data ↔ data = f.data ∧ f.data.length ≤ maxArrayLength := by
  have hmax := maxArrayLength_lt
  unfold readAllBytes
  split_ifs <;> simp <;> grind

theorem mapM_readAllBytes_eq_ok_iff {fs : List FileInfo} {ds : List Bytes} :
    fs.mapM readAllBytes = .ok ds ↔
      ds = fs.map (·.data) ∧ ∀ f ∈ fs, f.data.length ≤ maxArrayLength := by
  induction fs generalizing ds with
  | nil =>
    change Except.ok [] = Except.ok ds ↔ _
    simp [eq_comm]
  | cons f fs ih =>
    rw [List.mapM_cons]
    constructor
    · intro h
      cases hf : readAllBytes f with
      | error x => rw [hf] at h; cases h
      | ok data =>
        cases hfs : fs.mapM readAllBytes with
        | error x => rw [hf, hfs] at h; cases h
        | ok rest =>
          rw [hf, hfs] at h
          cases h
          obtain ⟨rfl, hlen⟩ := readAllBytes_eq_ok.mp hf
          obtain ⟨rfl, hrest⟩ := ih.mp hfs
          exact ⟨rfl, List.forall_mem_cons.mpr ⟨hlen, hrest⟩⟩
    · rintro ⟨rfl, hlen⟩
      rw [List.forall_mem_cons] at hlen
      rw [readAllBytes_eq_ok.mpr ⟨rfl, hlen.1⟩, ih.mpr ⟨rfl, hlen.2⟩]
      rfl

theorem buildPfs0_eq_ok_iff :
    buildPfs0 files = .ok stream ↔ stream = buildTables files ++ (files.map (·.data)).flatten ∧
      ∀ f ∈ files, f.data.length ≤ maxArrayLength := by
  unfold buildPfs0
  constructor
  · intro h
    cases hds : files.mapM readAllBytes with
    | error x => rw [hds] at h; cases h
    | ok ds =>
      rw [hds] at h
      cases h
      obtain ⟨rfl, hlen⟩ := mapM_readAllBytes_eq_ok_iff.mp hds
      exact ⟨rfl, hlen⟩
  · rintro ⟨rfl, hlen⟩
    rw [mapM_readAllBytes_eq_ok_iff.mpr ⟨rfl, hlen⟩]
    rfl

theorem readHeader_of_rest {br : BinaryReader} {fileCount strLastOff : Int32} {r : Bytes}
    (h : br.rest = header fileCount strLastOff ++ r) :
    readHeader br = .ok ((fileCount,
      Int64.ofNat (br.position + 16) + (fileCount * entrySize).toInt64,
      Int64.ofNat (br.position + 16) + (fileCount * entrySize).toInt64 + strLastOff.toInt64),
      br.advance 16) := by
  simp only [header, List.append_assoc] at h
  have h1 := rest_advance h length_headerMagic
  have h2 := rest_advance h1 (length_intBytes _)
  have h3 := rest_advance h2 (length_intBytes _)
  unfold readHeader
  rw [readMagic_of_rest _ h length_headerMagic (by decide), bind_of_ok (readInt32_of_rest h1),
    bind_of_ok (readInt32_of_rest h2), bind_of_ok (readInt32_of_rest h3)]
  rfl

theorem readOff_nonneg (files : List FileInfo) : 0 ≤ readOff files := by
  have h := alignUp_nonneg (n := 0x20) (a := ((strTable files).length : ℤ)) (by decide) (by omega)
  unfold readOff
  omega

theorem tables_le_writtenOff (files : List FileInfo) :
    16 + 24 * files.length + (strTable files).length ≤ writtenOff files := le_alignUp (by decide)

theorem names_le_writtenOff (files : List FileInfo) :
    alignUp 0x20 (strTable files).length ≤ writtenOff files :=
  alignUp_mono (by decide) (by omega)

/-! In an archive below `2 ^ 31` bytes the words of the header do not wrap around. -/

theorem toInt_fileCount (h : writtenOff files < 2 ^ 31) :
    (Int32.ofNat files.length).toInt = files.length :=
  Int32.toInt_ofNat_of_lt (by have := tables_le_writtenOff files; omega)

theorem toInt_entries (h : writtenOff files < 2 ^ 31) :
    (Int64.ofNat 16 + (Int32.ofNat files.length * entrySize).toInt64).toInt =
      ((16 + 24 * files.length : ℕ) : ℤ) := by
  have hle := tables_le_writtenOff files
  have hentry : entrySize.toInt = 24 := by decide
  have htable : (Int32.ofNat files.length * entrySize).toInt = 24 * files.length := by
    rw [Int32.toInt_mul, toInt_fileCount h, hentry, Int.bmod_eq_of_le (by omega) (by omega)]
    omega
  rw [Int64.toInt_add, Int32.toInt_toInt64, htable, Int64.toInt_ofNat_of_lt (by decide),
    Int.bmod_eq_of_le (by omega) (by omega)]
  omega

theorem toInt_readOff (h : writtenOff files < 2 ^ 31) :
    (Int64.ofNat 16 + (Int32.ofNat files.length * entrySize).toInt64 +
      (intOfLong (alignUp 0x20 (Int32.ofNat (strTable files).length).toInt)).toInt64).toInt =
        ((readOff files).toNat : ℤ) := by
  have hle := tables_le_writtenOff files
  have hnames := names_le_writtenOff files
  have hpos :=
    alignUp_nonneg (n := 0x20) (a := ((strTable files).length : ℤ)) (by decide) (by omega)
  have hlen : (Int32.ofNat (strTable files).length).toInt = (strTable files).length :=
    Int32.toInt_ofNat_of_lt (by omega)
  have hlast : (intOfLong (alignUp 0x20 ((strTable files).length : ℤ))).toInt =
      alignUp 0x20 (strTable files).length := Int32.toInt_ofInt_of_le (by omega) (by omega)
  rw [hlen, Int64.toInt_add, toInt_entries h, Int32.toInt_toInt64, hlast,
    Int.toNat_of_nonneg (readOff_nonneg files), readOff, Int.bmod_eq_of_le (by omega) (by omega)]
  omega

/-- What an extraction gives: every name, and the pieces of the stream from `readOff` on. -/
theorem extractFiles_buildTables (dirPath : String) (tail : Bytes)
    (hs : ∀ f ∈ files, NulFree f.name) (hlen : ∀ f ∈ files, f.data.length ≤ maxArrayLength)
    (hsize : writtenOff files + (files.map (·.data.length)).sum < 2 ^ 31) :
    extractFiles dirPath (buildTables files ++ tail) =
      ⟨List.zipWith (fun f data => (path dirPath f.name, data)) files
        (pieces (buildTables files ++ tail) (readOff files).toNat (files.map (·.data.length))),
        .ok ()⟩ := by
  have hw : writtenOff files < 2 ^ 31 := by omega
  have hle := tables_le_writtenOff files
  have hnames := names_le_writtenOff files
  have hread : readOff files < 2 ^ 32 := by unfold readOff; omega
  obtain ⟨stream, hdef⟩ : ∃ stream, stream = buildTables files ++ tail := ⟨_, rfl⟩
  have hsplit := hdef
  rw [buildTables_eq, List.append_assoc, List.append_assoc, List.append_assoc] at hsplit
  have hrest : (ofBytes stream).rest = _ := hsplit
  have hdrop : stream.drop (16 + 24 * files.length + 0) = strTable files ++
      (List.replicate (alignPad 0x20
        (16 + 24 * files.length + (strTable files).length)).toNat 0 ++ tail) := by
    rw [hsplit, ← List.append_assoc]
    apply List.drop_left'
    rw [List.length_append, length_header, length_entries, Nat.add_zero]
  have hentries := extractEntries_eq dirPath 0 0
    (toInt_readOff hw) (toInt_entries hw) hs hlen (rest_advance hrest (length_header _ _)) hdrop
    (by omega) (by omega) (by omega)
  rw [← hdef, extractFiles, readHeader_of_rest hrest]
  simp only [position_ofBytes, Nat.zero_add, toInt_fileCount hw, Int.toNat_natCast]
  exact hentries

/-- Between the names and the contents there are zeros. -/
theorem drop_buildTables (files : List FileInfo) :
    (buildTables files).drop (readOff files).toNat =
      List.replicate ((buildTables files).length - (readOff files).toNat) 0 := by
  have hlen := length_buildTables files
  have hnonneg := readOff_nonneg files
  have hle := le_alignUp (n := 0x20) (a := ((strTable files).length : ℤ)) (by decide)
  have hnames : 16 + 24 * files.length + (strTable files).length ≤ (readOff files).toNat := by
    unfold readOff at hnonneg ⊢
    omega
  set R := (readOff files).toNat
  have hzeros : ((buildTables files).drop R).length = (buildTables files).length - R :=
    List.length_drop
  rw [buildTables_eq, ← List.append_assoc, ← List.append_assoc] at hzeros ⊢
  rw [List.drop_append, List.drop_of_length_le, List.nil_append, List.drop_replicate] at hzeros ⊢
  · rw [← hzeros, List.length_replicate]
  all_goals
    simp only [List.length_append, length_header, length_entries]
    omega

/-- The contents are found exactly when the reader looks where they are, or they are all empty, or
all of them are zeros and the reader starts inside the padding. -/
theorem take_drop_readOff_iff (files : List FileInfo) (data : Bytes) :
    ((buildTables files ++ data).drop (readOff files).toNat).take data.length = data ↔
      files.length % 4 = 2 ∨ data = [] ∨ ((∀ b ∈ data, b = 0) ∧
        alignPad 0x20 (strTable files).length < (16 + 24 * files.length) % 0x20) := by
  have hlen := length_buildTables files
  have hnonneg := readOff_nonneg files
  have hcases : readOff files = writtenOff files ∧ files.length % 4 = 2 ∨
      readOff files < writtenOff files ∧ ¬ files.length % 4 = 2 ∧
        alignPad 0x20 (strTable files).length < (16 + 24 * files.length) % 0x20 ∨
      writtenOff files < readOff files ∧ ¬ files.length % 4 = 2 ∧
        ¬ alignPad 0x20 (strTable files).length < (16 + 24 * files.length) % 0x20 := by
    have hrem : files.length % 4 = 0 ∨ files.length % 4 = 1 ∨ files.length % 4 = 2 ∨
        files.length % 4 = 3 := by omega
    simp only [readOff, writtenOff, alignPad, alignUp]
    rcases hrem with hrem | hrem | hrem | hrem <;> omega
  rcases hcases with ⟨heq, hmod⟩ | ⟨hlt, hmod, hpad⟩ | ⟨hlt, hmod, hpad⟩
  · rw [List.drop_left' (by omega), List.take_length]
    simp only [hmod, true_or]
  · rw [List.drop_append_of_le_length (by omega), drop_buildTables,
      take_replicate_append_eq_iff (by omega)]
    simp only [hmod, hpad, and_true, false_or, iff_or_self]
    rintro rfl
    simp
  · rw [List.drop_append, List.drop_of_length_le (by omega), List.nil_append]
    simp only [hmod, hpad, and_false, or_false, false_or]
    constructor
    · intro h
      have hl := congrArg List.length h
      rw [List.length_take, List.length_drop] at hl
      exact List.length_eq_zero_iff.mp (by omega)
    · rintro rfl
      simp

end Tables

theorem zipWith_files_inj {dirPath : String} {files : List FileInfo} {ds : List Bytes}
    (h : ds.length = files.length) :
    List.zipWith (fun f data => (path dirPath f.name, data)) files ds =
        files.map (fun f => (path dirPath f.name, f.data)) ↔ ds = files.map (·.data) := by
  induction files generalizing ds with
  | nil => simp_all
  | cons f fs ih =>
    cases ds with
    | nil => simp at h
    | cons d ds =>
      rw [List.length_cons, List.length_cons, Nat.add_right_cancel_iff] at h
      simp only [List.zipWith_cons_cons, List.map_cons, List.cons.injEq, Prod.mk.injEq, true_and,
        ih h]

variable {files : List FileInfo} {stream : Bytes} {dirPath : String}

/-- What an extraction into `dirPath` of an archive of the files should write. -/
def extractionOf (dirPath : String) (files : List FileInfo) : Extraction :=
  ⟨files.map fun f => (path dirPath f.name, f.data), .ok ()⟩

theorem extractFiles_eq_iff (hbuild : buildPfs0 files = .ok stream) (hsize : stream.length < 2 ^ 31)
    (hs : ∀ f ∈ files, NulFree f.name) :
    extractFiles dirPath stream = extractionOf dirPath files ↔
      files.length % 4 = 2 ∨ (∀ f ∈ files, f.data = []) ∨
        ((∀ f ∈ files, ∀ b ∈ f.data, b = 0) ∧
          alignPad 0x20 (strTable files).length < (16 + 24 * files.length) % 0x20) := by
  obtain ⟨rfl, hlen⟩ := buildPfs0_eq_ok_iff.mp hbuild
  have hsum : (files.map (·.data.length)).sum = (files.map (·.data)).flatten.length := by
    rw [List.length_flatten, List.map_map]
    rfl
  have hw := length_buildTables files
  rw [List.length_append] at hsize
  have hpieces := extractFiles_buildTables dirPath (files.map (·.data)).flatten hs hlen
    (by omega)
  have hlens : files.map (·.data.length) = (files.map (·.data)).map List.length := by
    rw [List.map_map]
    rfl
  have hcut := pieces_drop (buildTables files ++ (files.map (·.data)).flatten)
    (readOff files).toNat 0 (files.map (·.data.length))
  rw [Nat.add_zero] at hcut
  rw [hpieces, ← hcut, extractionOf, Extraction.mk.injEq, and_iff_left rfl,
    zipWith_files_inj (by rw [length_pieces, List.length_map]), hlens, pieces_eq_iff,
    take_drop_readOff_iff]
  simp only [List.flatten_eq_nil_iff, List.forall_mem_flatten, List.forall_mem_map]

/-- An archive gives back the files it was built from exactly when the entry table ends at a
multiple of 32, all files are empty, or the reader starts in the padding and reads only zeros. -/
theorem roundTrip_iff (hbuild : buildPfs0 files = .ok stream) (hsize : stream.length < 2 ^ 31)
    (hs : ∀ f ∈ files, NulFree f.name) :
    extractFiles dirPath stream = extractionOf dirPath files ↔
      files.length % 4 = 2 ∨ (∀ f ∈ files, f.data = []) ∨
        ((∀ f ∈ files, ∀ b ∈ f.data, b = 0) ∧
          alignPad 0x20 (strTable files).length < (16 + 24 * files.length) % 0x20) :=
  extractFiles_eq_iff hbuild hsize hs

theorem nulFree_of_all {s : String} (h : s.toList.all fun c => c ≠ nul) : NulFree s := by
  simpa [NulFree] using h

/-- One file of one byte: the reader starts behind its contents. -/
theorem not_roundTrip_single : ∃ stream, buildPfs0 [⟨"a", [1]⟩] = .ok stream ∧
    stream.length < 2 ^ 31 ∧ NulFree "a" ∧
      extractFiles "out" stream ≠ extractionOf "out" [⟨"a", [1]⟩] := by
  have hnul : NulFree "a" := nulFree_of_all (by decide)
  have hbuild : buildPfs0 [⟨"a", [1]⟩] = .ok _ := buildPfs0_eq_ok_iff.mpr ⟨rfl, by decide⟩
  refine ⟨_, hbuild, by decide, hnul, fun h => ?_⟩
  have hcond := (extractFiles_eq_iff hbuild (by decide) (by simpa using hnul)).mp h
  revert hcond
  decide

theorem roundTrip_pair : extractFiles "out"
      (buildTables [⟨"a", [1]⟩, ⟨"b", [2, 3]⟩] ++ [1, 2, 3]) =
    extractionOf "out" [⟨"a", [1]⟩, ⟨"b", [2, 3]⟩] := by
  have ha : NulFree "a" := nulFree_of_all (by decide)
  have hb : NulFree "b" := nulFree_of_all (by decide)
  exact (roundTrip_iff (buildPfs0_eq_ok_iff.mpr ⟨rfl, by decide⟩) (by decide +kernel)
    (by simpa using ⟨ha, hb⟩)).mpr (Or.inl rfl)

end Sp2Module.Pfs0
