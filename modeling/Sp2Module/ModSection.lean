import Sp2Module.DynamicTable
import Sp2Module.ExeFSPlacement
import Sp2Module.ModObjFile

/-!
# The module section of a file

Reading an NSO ends with its module section. A header that cannot be read leaves the NSO without
one; a header with a table that has no null entry in its window stops the reading. Where the table
lies in a segment it is decoded completely when the window is in the segment too, the null entry in
the window, and the relocations are the same under both tags.
-/

namespace Sp2Module

open BinaryReader NsoSegmentType

namespace Nso

variable {codec : Lz4Codec AppError} {nso nso' : Nso} {m m' : ModHeader} {t : NsoSegmentType}
  {es : List Elf64Dyn} {stream : Bytes} {br : BinaryReader}

/-- The word at 4 leads to a MOD0 record that reads as `m`, which has no dynamic table yet. -/
def HasHeader (nso : Nso) (m : ModHeader) : Prop :=
  ∃ base buffer br, nso.getModAddr = .ok base ∧ nso.readNso base ModHeader.headerSize = .ok buffer ∧
    ModHeader.readFields base.toNat (.ofBytes buffer) = .ok (m, br)

theorem HasHeader.unique (h : nso.HasHeader m) (h' : nso.HasHeader m') : m = m' := by
  obtain ⟨base, buffer, br, hbase, hread, hfields⟩ := h
  obtain ⟨base', buffer', br', hbase', hread', hfields'⟩ := h'
  rw [hbase] at hbase'
  cases hbase'
  rw [hread] at hread'
  cases hread'
  rw [hfields] at hfields'
  cases hfields'
  rfl

theorem SameImage.hasHeader (hsame : nso.SameImage nso') (h : nso'.HasHeader m) :
    nso.HasHeader m := by
  unfold HasHeader
  rw [hsame.getModAddr, hsame.readNso]
  exact h

/-- Behind a header that is read only the dynamic table is left. -/
theorem HasHeader.ofNso_eq_ok {info : DynamicInfo} (h : nso.HasHeader m)
    (hinfo : DynamicInfo.ofNso nso m.dynamicAddr = .ok info) :
    ModHeader.ofNso nso = .ok { m with dynInfo := some info } := by
  obtain ⟨base, buffer, br, hbase, hread, hfields⟩ := h
  exact except_bind_eq_ok.mpr ⟨base, hbase, except_bind_eq_ok.mpr ⟨buffer, hread,
    except_bind_eq_ok.mpr ⟨_, hfields, except_bind_eq_ok.mpr ⟨info, hinfo, rfl⟩⟩⟩⟩

theorem HasHeader.ofNso_eq_error {x : Exception} (h : nso.HasHeader m)
    (hinfo : DynamicInfo.ofNso nso m.dynamicAddr = .error x) : ModHeader.ofNso nso = .error x := by
  obtain ⟨base, buffer, br, hbase, hread, hfields⟩ := h
  change nso.readNso base 0x1C = _ at hread
  simp only [ModHeader.ofNso, hbase, hread, hfields, hinfo, bind, Except.bind]

/-- Without a header the source throws the exception it catches. -/
theorem ofNso_of_not_hasHeader (hs : nso.Sized) (h : ∀ m, ¬ nso.HasHeader m) :
    ∃ message, ModHeader.ofNso nso = .error (.app (.nso message)) := by
  cases hword : nso.readNso 4 4 with
  | error x =>
    obtain ⟨message, rfl⟩ := readNso_eq_error (n := 4) hs (by decide) hword
    exact ⟨message, by simp only [ModHeader.ofNso, getModAddr, hword, bind, Except.bind]⟩
  | ok word =>
    obtain ⟨-, -, -, -, -, hlen⟩ := locate_of_readNso (n := 4) hs hword
    have hbase : nso.getModAddr = .ok (uintOfBytes (word.take 4)) :=
      except_bind_eq_ok.mpr ⟨word, hword, if_neg (by omega)⟩
    cases hread : nso.readNso (uintOfBytes (word.take 4)) 0x1C with
    | error x =>
      obtain ⟨message, rfl⟩ := readNso_eq_error (n := 0x1C) hs (by decide) hread
      exact ⟨message, by simp only [ModHeader.ofNso, hbase, hread, bind, Except.bind]⟩
    | ok buffer =>
      obtain ⟨-, -, -, -, -, hlen'⟩ := locate_of_readNso (n := 0x1C) hs hread
      cases hfields : ModHeader.readFields (uintOfBytes (word.take 4)).toNat (.ofBytes buffer) with
      | error x =>
        rw [ModHeader.readFields_eq_error hlen' hfields] at hfields
        exact ⟨_, ModHeader.ofNso_eq_error hbase hread hfields⟩
      | ok p => exact absurd ⟨_, buffer, p.2, hbase, hread, hfields⟩ (h p.1)

/-! ### Loading with any content -/

/-- Where a header is found and the window of its table can be read, one of the entries in the
window is null. -/
def TableTerminated (nso : Nso) : Prop :=
  ∀ m window, nso.HasHeader m → nso.readNso (uintOfLong m.dynamicAddr) 0x200 = .ok window →
    ∃ i < 32, (entryAt window (16 * i)).dTag = DtTagEnum.dtNull

/-- The file is loaded, with a module section that has been decoded from the MOD0 record in the
image or with none. -/
def Loads (codec : Lz4Codec AppError) (stream : Bytes) (nso₀ : Nso) : Prop :=
  ∃ nso, parseFile codec stream = .ok nso ∧ (nso.modSection = none ∨
    ∃ m base, nso.modSection = some m ∧ nso₀.getModAddr = .ok base ∧
      nso₀.readNso base ModHeader.headerSize = .ok m.raw)

theorem TableTerminated.loads (h : nso.TableTerminated) (hs : nso.Sized)
    (hparse : parseSegments codec (.ofBytes stream) = .ok (nso, br)) : Loads codec stream nso := by
  cases hm : ModHeader.ofNso nso with
  | ok m =>
    obtain ⟨base, hbase, -, hraw⟩ := ModHeader.readNso_of_ofNso hs hm
    exact ⟨_, parseFile_of_modHeader hparse hm, Or.inr ⟨m, base, rfl, hbase, hraw⟩⟩
  | error x =>
    have hcaught : ∃ message, x = .app (.nso message) := by
      by_cases hheader : ∃ m, nso.HasHeader m
      · obtain ⟨m, hheader⟩ := hheader
        cases hread : nso.readNso (uintOfLong m.dynamicAddr) 0x200 with
        | error y =>
          obtain ⟨message, rfl⟩ := readNso_eq_error (n := 0x200) hs (by decide) hread
          have hinfo : DynamicInfo.ofNso nso m.dynamicAddr = .error (.app (.nso message)) := by
            simp only [DynamicInfo.ofNso, hread, bind, Except.bind]
          rw [hheader.ofNso_eq_error hinfo] at hm
          cases hm
          exact ⟨message, rfl⟩
        | ok window =>
          obtain ⟨-, -, -, -, -, hlen⟩ := locate_of_readNso (n := 0x200) hs hread
          obtain ⟨i, hi, hnull⟩ := h m window hheader hread
          obtain ⟨es, hes⟩ := @exists_tableAt window 0 i (by omega) (by rwa [Nat.zero_add])
          rw [hheader.ofNso_eq_ok (DynamicInfo.ofNso_of_tableAt hread hes)] at hm
          cases hm
      · obtain ⟨message, herr⟩ := ofNso_of_not_hasHeader hs fun m hh => hheader ⟨m, hh⟩
        rw [herr] at hm
        cases hm
        exact ⟨message, rfl⟩
    obtain ⟨message, rfl⟩ := hcaught
    exact ⟨_, parseFile_of_error hparse hm, Or.inl rfl⟩

/-- An exception that is not caught leaves the constructor. -/
theorem parseFile_eq_error {x : Exception}
    (hparse : parseSegments codec (.ofBytes stream) = .ok (nso, br))
    (hm : ModHeader.ofNso nso = .error x) (hx : ∀ message, x ≠ .app (.nso message)) :
    parseFile codec stream = .error x := by
  cases hfile : parseFile codec stream with
  | ok nso' =>
    obtain ⟨nso₀, br', hparse', ⟨m, hm', -⟩ | ⟨message, hm', -⟩⟩ := parseFile_eq_ok hfile
    all_goals
      rw [hparse] at hparse'
      cases hparse'
      rw [hm] at hm'
      cases hm'
    exact absurd rfl (hx message)
  | error y =>
    simp only [parseFile, hparse, hm, bind, Except.bind] at hfile
    cases hfile
    rfl

/-- A table without a null entry in its window throws at the end of the window. -/
theorem parseFile_of_not_terminated {window : Bytes} (hs : nso.Sized)
    (hparse : parseSegments codec (.ofBytes stream) = .ok (nso, br)) (hheader : nso.HasHeader m)
    (hread : nso.readNso (uintOfLong m.dynamicAddr) 0x200 = .ok window)
    (hne : ∀ i < 32, (entryAt window (16 * i)).dTag ≠ DtTagEnum.dtNull) :
    parseFile codec stream = .error .endOfStream := by
  obtain ⟨-, -, -, -, -, hlen⟩ := locate_of_readNso (n := 0x200) hs hread
  have hinfo := DynamicInfo.ofNso_of_ne hread fun i hi => hne i (by omega)
  exact parseFile_eq_error hparse (hheader.ofNso_eq_error hinfo) fun message h => by cases h

/-- A file is loaded exactly when the window of its dynamic table, if it comes to that, has a null
entry. -/
theorem loads_iff (hparse : parseSegments codec (.ofBytes stream) = .ok (nso, br))
    (hs : nso.Sized) : Loads codec stream nso ↔ nso.TableTerminated := by
  constructor
  · rintro ⟨nso', hfile, -⟩ m window hheader hread
    by_contra hne
    have herr := parseFile_of_not_terminated hs hparse hheader hread
      fun i hi hnull => hne ⟨i, hi, hnull⟩
    rw [hfile] at herr
    cases herr
  · exact fun h => h.loads hs hparse

/-! ### Decoding a table that lies in a segment -/

/-- The offset of the dynamic table in segment `t`. -/
def tableOffset (nso : Nso) (m : ModHeader) (t : NsoSegmentType) : ℕ :=
  (uintOfLong m.dynamicAddr).toNat - (nso.segments t).address.toNat

/-- The header is read as `m`, and the table it points to starts in segment `t`, has the entries
`es` and ends with a null entry inside the segment. -/
structure PointsToTable (nso : Nso) (m : ModHeader) (t : NsoSegmentType) (es : List Elf64Dyn) :
    Prop where
  header : nso.HasHeader m
  segment : nso.getAddressSegment (uintOfLong m.dynamicAddr) = some t
  table : TableAt (nso.segments t).rawData (nso.tableOffset m t) es
  inside : nso.tableOffset m t + 16 * (es.length + 1) ≤ (nso.segments t).decompressedSize.toNat

/-- The file is loaded with a module section, and every property of its dynamic information is the
value of the last entry that has the ELF tag of the property. -/
def DecodedCompletely (codec : Lz4Codec AppError) (stream : Bytes) (es : List Elf64Dyn) : Prop :=
  ∃ nso m info, parseFile codec stream = .ok nso ∧ nso.modSection = some m ∧
    m.dynInfo = some info ∧ ∀ p, info p = lastValue es (DynamicInfo.elfTag p)

namespace PointsToTable

variable (h : nso.PointsToTable m t es)
include h

/-- The window is read when it is inside the segment. -/
theorem readNso (hwindow : nso.tableOffset m t + 0x200 ≤ (nso.segments t).decompressedSize.toNat) :
    nso.readNso (uintOfLong m.dynamicAddr) 0x200 =
      .ok (slice (nso.segments t).rawData (nso.tableOffset m t) 0x200) := by
  have hle := ((nso.segments t).contains_iff _).mp (getAddressSegment_eq_some h.segment)
  have hraw := h.table.le_length
  unfold tableOffset at hwindow hraw
  exact readNso_of_getAddressSegment (n := 0x200) h.segment (by omega) (by omega) (by decide)

theorem ofNso_eq_ok
    (hwindow : nso.tableOffset m t + 0x200 ≤ (nso.segments t).decompressedSize.toNat)
    (hlen : es.length < 32) : ModHeader.ofNso nso =
      .ok { m with dynInfo := some (es.foldl DynamicInfo.setField fun _ => 0) } :=
  h.header.ofNso_eq_ok (DynamicInfo.ofNso_of_tableAt (h.readNso hwindow)
    (TableAt.slice (k := 0) h.table (by omega)))

/-- A window beyond the end of the segment cannot be read, and the header is dropped. -/
theorem ofNso_of_lt
    (hwindow : (nso.segments t).decompressedSize.toNat < nso.tableOffset m t + 0x200) :
    ModHeader.ofNso nso = .error (.app (.nso "Invalid Size")) := by
  have hc := getAddressSegment_eq_some h.segment
  have hle := ((nso.segments t).contains_iff _).mp hc
  unfold tableOffset at hwindow
  have hread : nso.readNso (uintOfLong m.dynamicAddr) 0x200 =
      .error (.app (.nso "Invalid Size")) := by
    simp only [Nso.readNso, h.segment]
    rw [hc.toNat_endAddress, if_pos (by omega)]
  refine h.header.ofNso_eq_error ?_
  simp only [DynamicInfo.ofNso, hread, bind, Except.bind]

/-- A table of more entries than the window has is read to the end of the window. -/
theorem ofNso_of_le
    (hwindow : nso.tableOffset m t + 0x200 ≤ (nso.segments t).decompressedSize.toNat)
    (hlen : 32 ≤ es.length) : ModHeader.ofNso nso = .error .endOfStream := by
  refine h.header.ofNso_eq_error (DynamicInfo.ofNso_of_ne (h.readNso hwindow) fun i hi => ?_)
  rw [length_slice] at hi
  rw [entryAt_slice (by omega)]
  exact h.table.dTag_ne (by omega)

end PointsToTable

/-- What a complete decoding needs. -/
theorem PointsToTable.of_decodedCompletely
    (hparse : parseSegments codec (.ofBytes stream) = .ok (nso, br))
    (h : nso.PointsToTable m t es) (hd : DecodedCompletely codec stream es) :
    nso.tableOffset m t + 0x200 ≤ (nso.segments t).decompressedSize.toNat ∧ es.length < 32 ∧
      lastValue es DtTagEnum.dtRela = lastValue es DtTagEnum.dtRel := by
  obtain ⟨nso', m', info, hfile, hmod, hinfo, hvalues⟩ := hd
  obtain ⟨nso₀, br', hparse', ⟨m₁, hm₁, rfl⟩ | ⟨message, -, rfl⟩⟩ := parseFile_eq_ok hfile
  · rw [hparse] at hparse'
    cases hparse'
    cases hmod
    have hwindow : nso.tableOffset m t + 0x200 ≤ (nso.segments t).decompressedSize.toNat := by
      by_contra hlt
      rw [h.ofNso_of_lt (by omega)] at hm₁
      cases hm₁
    have hlen : es.length < 32 := by
      by_contra hle
      rw [h.ofNso_of_le hwindow (by omega)] at hm₁
      cases hm₁
    rw [h.ofNso_eq_ok hwindow hlen] at hm₁
    cases hm₁
    cases hinfo
    have hrela := hvalues .rela
    rw [DynamicInfo.foldl_setField_apply] at hrela
    exact ⟨hwindow, hlen, hrela.symm⟩
  · cases hmod

/-- A table in a segment is decoded completely exactly when the window and the null entry in it are
inside the segment, and DT_REL, which the source looks at, has the value of DT_RELA. -/
theorem decodedCompletely_iff (hparse : parseSegments codec (.ofBytes stream) = .ok (nso, br))
    (h : nso.PointsToTable m t es) :
    DecodedCompletely codec stream es ↔
      nso.tableOffset m t + 0x200 ≤ (nso.segments t).decompressedSize.toNat ∧ es.length < 32 ∧
        lastValue es DtTagEnum.dtRela = lastValue es DtTagEnum.dtRel := by
  constructor
  · exact h.of_decodedCompletely hparse
  · rintro ⟨hwindow, hlen, hrela⟩
    refine ⟨_, _, _, parseFile_of_modHeader hparse (h.ofNso_eq_ok hwindow hlen), rfl, rfl, ?_⟩
    intro p
    rw [DynamicInfo.foldl_setField_apply, DynamicInfo.elfTag]
    by_cases hp : p = .rela
    · subst hp
      rw [if_pos rfl]
      exact hrela.symm
    · rw [if_neg hp]

end Nso

/-! ### A module with a given table -/

section Example

/-- A header at 8 that points to the end of its segment. -/
def tableHeader : ModHeader := ⟨8, 0x1C, 0, 0, 0, 0, 0, none⟩

def tableText : Bytes := List.replicate 4 0 ++ (uintBytes 8 ++ tableHeader.raw)

/-- The dynamic table of this module is its rodata. -/
def tableNso (table : Bytes) : Nso where
  flag := 0
  buildId := List.replicate 0x20 0
  segments
    | text => exampleSegment 0 0 tableText
    | rodata => exampleSegment 0 0x24 table
    | rwdata => exampleSegment 0 (0x24 + UInt32.ofNat table.length) []
  dynamicStringTable := ⟨0, 0⟩
  dynamicSymbolTable := ⟨0, 0⟩
  modSection := none

/-- The bytes that are stored for the segments of the module. -/
def tableComp (table : Bytes) (t : NsoSegmentType) : Bytes :=
  ((tableNso table).segments t).rawData

/-- What is read from its file, before the module header. -/
def tableParsed (table : Bytes) : Nso :=
  { (tableNso table).written (tableComp table) with modSection := none }

variable {table : Bytes}

theorem length_tableText : tableText.length = 0x24 := by decide +kernel

theorem toNat_length_table (h : table.length ≤ 0x400) :
    (UInt32.ofNat table.length).toNat = table.length :=
  UInt32.toNat_ofNat_of_lt' (by show _ < 2 ^ 32; omega)

theorem decompressedSize_tableNso (h : table.length ≤ 0x400) (t : NsoSegmentType) :
    ((tableNso table).segments t).decompressedSize.toNat = (tableComp table t).length := by
  cases t with
  | text => exact congrArg (fun n => (UInt32.ofNat n).toNat) length_tableText
  | rodata => exact toNat_length_table h
  | rwdata => rfl

theorem length_tableComp (h : table.length ≤ 0x400) (t : NsoSegmentType) :
    (tableComp table t).length ≤ 0x400 := by
  cases t with
  | text => exact length_tableText.trans_le (by omega)
  | rodata => exact h
  | rwdata => exact Nat.zero_le _

theorem wellPlaced_tableNso (h : table.length ≤ 0x400) : (tableNso table).WellPlaced := by
  have hsize := toNat_length_table h
  have hend : ((0x24 : UInt32) + UInt32.ofNat table.length).toNat = 0x24 + table.length := by
    have hc : (0x24 : UInt32).toNat = 0x24 := rfl
    rw [UInt32.toNat_add, hsize, hc, Nat.mod_eq_of_lt (by omega)]
  refine ⟨rfl, (decompressedSize_tableNso h text).trans_le length_tableText.le, ?_, ?_⟩
  · change 0x24 + (UInt32.ofNat table.length).toNat ≤
      ((0x24 : UInt32) + UInt32.ofNat table.length).toNat
    omega
  · change ((0x24 : UInt32) + UInt32.ofNat table.length).toNat + 0 + 0 < 2 ^ 32
    omega

theorem storable_tableNso (h : table.length ≤ 0x400) : (tableNso table).Storable := by
  have hmax : 0x400 ≤ maxArrayLength := by decide
  have hcompressed : ∀ t, ((tableNso table).segments t).compressed = false := by
    intro t
    cases t <;> rfl
  refine ⟨List.length_replicate, ?_, ?_, ?_, ?_⟩
  · intro t
    have hbit : Nso.compressedBit 0 t = false := by cases t <;> decide
    exact (hcompressed t).trans hbit.symm
  · intro t
    rw [decompressedSize_tableNso h]
    exact (length_tableComp h t).trans hmax
  · exact fun t => (length_tableComp h t).trans hmax
  · intro t ht
    rw [hcompressed] at ht
    cases ht

/-- The file of the module. -/
def tableStream (table : Bytes) : Bytes := (tableNso table).storedFile (tableComp table)

theorem parseSegments_tableStream (h : table.length ≤ 0x400) :
    ∃ br, Nso.parseSegments Lz4Codec.literals (.ofBytes (tableStream table)) =
      .ok (tableParsed table, br) := by
  have hstored : ∀ t, (Nso.stored Lz4Codec.literals ((tableNso table).segments t) :
      Except Exception Bytes) = .ok (tableComp table t) := by
    intro t
    cases t <;> rfl
  refine (storable_tableNso h).parseSegments_written Lz4Codec.lawful_literals hstored ?_
  rw [Nso.length_storedFile rfl]
  have hfirst : (tableNso table).firstOffset.toNat = 0x100 := rfl
  have htext := length_tableComp h text
  have hrodata := length_tableComp h rodata
  have hrwdata := length_tableComp h rwdata
  omega

theorem sameImage_tableParsed (table : Bytes) : (tableParsed table).SameImage (tableNso table) :=
  ⟨fun _ => rfl, fun _ => rfl, fun _ => rfl⟩

theorem sized_tableParsed (h : table.length ≤ 0x400) : (tableParsed table).Sized :=
  (sameImage_tableParsed table).sized fun t => (decompressedSize_tableNso h t).symm

theorem getAddressSegment_tableNso (h : table.length ≤ 0x400) {addr : UInt32}
    (hlt : addr.toNat < 0x24) : (tableNso table).getAddressSegment addr = some text :=
  (wellPlaced_tableNso h).getAddressSegment (Nat.zero_le _) (by
    rw [decompressedSize_tableNso h]
    exact hlt.trans_eq ((Nat.zero_add _).trans length_tableText).symm)

theorem hasHeader_tableNso (h : table.length ≤ 0x400) : (tableNso table).HasHeader tableHeader := by
  have hsize : ((tableNso table).segments text).decompressedSize.toNat = 0x24 :=
    (decompressedSize_tableNso h text).trans length_tableText
  have hread : ∀ (addr : UInt32) (n : ℕ), addr.toNat + n ≤ 0x24 → 0 < n →
      (tableNso table).readNso addr n = .ok (slice tableText addr.toNat n) := by
    intro addr n hn hpos
    refine Nso.readNso_of_getAddressSegment (getAddressSegment_tableNso h (by omega)) ?_ ?_ ?_
    · rw [hsize]
      exact hn.trans (Nat.le_add_left _ _)
    · change addr.toNat ≤ tableText.length
      rw [length_tableText]
      omega
    · exact (show n ≤ 0x24 by omega).trans (by decide)
  obtain ⟨br, hfields⟩ := ModHeader.readFields_raw 8 tableHeader
  have hword : slice tableText 4 4 = uintBytes 8 := by decide
  have hraw : slice tableText 8 0x1C = tableHeader.raw := by decide +kernel
  refine ⟨8, tableHeader.raw, br, ?_, ?_, hfields⟩
  · refine except_bind_eq_ok.mpr ⟨_, hread 4 4 (by decide) (by decide), ?_⟩
    change toUInt32 (slice tableText 4 4) = _
    rw [hword, toUInt32_uintBytes]
  · exact (hread 8 0x1C (by decide) (by decide)).trans (congrArg _ hraw)

theorem hasHeader_tableParsed (h : table.length ≤ 0x400) :
    (tableParsed table).HasHeader tableHeader :=
  (sameImage_tableParsed table).hasHeader (hasHeader_tableNso h)

/-- The table starts at the start of rodata. -/
theorem getAddressSegment_table (h : table.length ≤ 0x400) (hpos : 0 < table.length) :
    (tableNso table).getAddressSegment (uintOfLong tableHeader.dynamicAddr) = some rodata := by
  refine (wellPlaced_tableNso h).getAddressSegment le_rfl ?_
  change 0x24 < 0x24 + (UInt32.ofNat table.length).toNat
  rw [toNat_length_table h]
  omega

theorem readNso_table (h : table.length = 0x200) :
    (tableParsed table).readNso (uintOfLong tableHeader.dynamicAddr) 0x200 = .ok table := by
  rw [(sameImage_tableParsed table).readNso]
  have hread := Nso.readNso_of_getAddressSegment (n := 0x200)
    (@getAddressSegment_table table (by omega) (by omega))
    (Nat.add_le_add_left
      (h.symm.trans (@toNat_length_table table (by omega)).symm).le _)
    (Nat.zero_le _) (by decide)
  refine hread.trans (congrArg _ ?_)
  change slice table 0 0x200 = table
  rw [← h, slice_zero_length]

/-- A table in which every entry has a tag. -/
theorem not_loads_tagged :
    (∃ br, Nso.parseSegments Lz4Codec.literals (.ofBytes (tableStream (List.replicate 0x200 1))) =
      .ok (tableParsed (List.replicate 0x200 1), br)) ∧
    (tableParsed (List.replicate 0x200 1)).Sized ∧
    ¬ Nso.Loads Lz4Codec.literals (tableStream (List.replicate 0x200 1))
      (tableParsed (List.replicate 0x200 1)) := by
  have hlen : (List.replicate 0x200 (1 : UInt8)).length = 0x200 := List.length_replicate
  obtain ⟨br, hparse⟩ := @parseSegments_tableStream (List.replicate 0x200 1) (by omega)
  have hs := @sized_tableParsed (List.replicate 0x200 1) (by omega)
  refine ⟨⟨br, hparse⟩, hs, ?_⟩
  rintro ⟨nso, hfile, -⟩
  have herr := Nso.parseFile_of_not_terminated hs hparse
    (hasHeader_tableParsed (by omega)) (readNso_table hlen) fun i hi => by
      have hslice : slice (List.replicate 0x200 (1 : UInt8)) (16 * i) 8 = List.replicate 8 1 :=
        slice_replicate 1 (by omega)
      have htag : ulongOfBytes (List.replicate 8 1) ≠ DtTagEnum.dtNull := by decide
      rwa [entryAt, hslice]
  rw [hfile] at herr
  cases herr

/-- A table that is empty. -/
theorem loads_empty :
    Nso.Loads Lz4Codec.literals (tableStream (List.replicate 0x200 0))
      (tableParsed (List.replicate 0x200 0)) := by
  have hlen : (List.replicate 0x200 (0 : UInt8)).length = 0x200 := List.length_replicate
  obtain ⟨br, hparse⟩ := @parseSegments_tableStream (List.replicate 0x200 0) (by omega)
  refine (Nso.loads_iff hparse (sized_tableParsed (by omega))).mpr ?_
  intro m window hheader hread
  rw [hheader.unique (hasHeader_tableParsed (by omega)), readNso_table hlen] at hread
  cases hread
  refine ⟨0, by decide, ?_⟩
  rw [entryAt, slice_replicate 0 (by decide)]
  decide

/-- A table with one entry before the null entries. -/
def oneEntry (dyn : Elf64Dyn) : Bytes :=
  ulongBytes dyn.dTag ++ (ulongBytes dyn.dUn ++ List.replicate 0x1F0 0)

theorem length_oneEntry (dyn : Elf64Dyn) : (oneEntry dyn).length = 0x200 := by
  simp only [oneEntry, List.length_append, length_ulongBytes, List.length_replicate]

theorem tableAt_oneEntry {dyn : Elf64Dyn} (h : dyn.dTag ≠ DtTagEnum.dtNull) :
    TableAt (oneEntry dyn) 0 [dyn] := by
  have htag : slice (oneEntry dyn) 0 8 = ulongBytes dyn.dTag :=
    slice_middle (l := []) rfl (length_ulongBytes _)
  have hun : slice (oneEntry dyn) 8 8 = ulongBytes dyn.dUn :=
    slice_middle (length_ulongBytes _) (length_ulongBytes _)
  have hnull : slice (oneEntry dyn) 16 8 = List.replicate 8 0 := by
    rw [oneEntry, ← List.append_assoc]
    refine (slice_append_right _ _ 0 8).trans (slice_replicate 0 (by omega))
  refine ⟨?_, h, ?_, ?_⟩
  · rw [entryAt, htag, hun, ulongOfBytes_ulongBytes, ulongOfBytes_ulongBytes]
  · rw [length_oneEntry]
    omega
  · rw [entryAt, hnull]
    exact show ulongOfBytes (List.replicate 8 0) = DtTagEnum.dtNull by decide

theorem pointsToTable_oneEntry {dyn : Elf64Dyn} (h : dyn.dTag ≠ DtTagEnum.dtNull) :
    (tableParsed (oneEntry dyn)).PointsToTable tableHeader rodata [dyn] := by
  have hlen := length_oneEntry dyn
  refine ⟨hasHeader_tableParsed (by omega), ?_, tableAt_oneEntry h, ?_⟩
  · exact @getAddressSegment_table (oneEntry dyn) (by omega) (by omega)
  · change 0 + 16 * 2 ≤ (UInt32.ofNat (oneEntry dyn).length).toNat
    rw [toNat_length_table (by omega)]
    omega

/-- The address of the string table is decoded. -/
theorem decodedCompletely_strTab :
    Nso.DecodedCompletely Lz4Codec.literals
      (tableStream (oneEntry ⟨DtTagEnum.dtStrTab, 0x40⟩)) [⟨DtTagEnum.dtStrTab, 0x40⟩] := by
  have hlen := length_oneEntry ⟨DtTagEnum.dtStrTab, 0x40⟩
  obtain ⟨br, hparse⟩ := @parseSegments_tableStream
    (oneEntry ⟨DtTagEnum.dtStrTab, 0x40⟩) (by omega)
  refine (Nso.decodedCompletely_iff hparse (pointsToTable_oneEntry (by decide))).mpr
    ⟨?_, by decide, by decide⟩
  change 0 + 0x200 ≤ (UInt32.ofNat (oneEntry ⟨DtTagEnum.dtStrTab, 0x40⟩).length).toNat
  rw [toNat_length_table (by omega), hlen]

/-- The address of the relocations is not. -/
theorem not_decodedCompletely_rela :
    (∃ br, Nso.parseSegments Lz4Codec.literals
      (.ofBytes (tableStream (oneEntry ⟨DtTagEnum.dtRela, 0x1234⟩))) =
        .ok (tableParsed (oneEntry ⟨DtTagEnum.dtRela, 0x1234⟩), br)) ∧
    (tableParsed (oneEntry ⟨DtTagEnum.dtRela, 0x1234⟩)).PointsToTable tableHeader rodata
      [⟨DtTagEnum.dtRela, 0x1234⟩] ∧
    ¬ Nso.DecodedCompletely Lz4Codec.literals
      (tableStream (oneEntry ⟨DtTagEnum.dtRela, 0x1234⟩)) [⟨DtTagEnum.dtRela, 0x1234⟩] := by
  have hlen := length_oneEntry ⟨DtTagEnum.dtRela, 0x1234⟩
  obtain ⟨br, hparse⟩ := @parseSegments_tableStream
    (oneEntry ⟨DtTagEnum.dtRela, 0x1234⟩) (by omega)
  have hpoints := @pointsToTable_oneEntry ⟨DtTagEnum.dtRela, 0x1234⟩ (by decide)
  refine ⟨⟨br, hparse⟩, hpoints, fun h => ?_⟩
  have hrela := (hpoints.of_decodedCompletely hparse h).2.2
  revert hrela
  decide

end Example

end Sp2Module
