import Sp2Module.ModSection
import Sp2Module.Patcher

/-!
# NSOs of data only

`CreateRwDataNso` puts a module header in front of its data, but not the `0x200` bytes that are read
for the dynamic table. So the NSO has no module section, nor has the one read back from its file,
and a run with that file for the custom module ends before it has written anything.
-/

namespace Sp2Module

open NsoSegmentType BinaryReader

/-- `GetBuffer` of a new stream gives the 256 bytes it has allocated. -/
def streamBuffer (written : Bytes) : Bytes := written ++ List.replicate (0x100 - written.length) 0

namespace Nso

/-- The module header of an NSO of data: magic word and five words of zero. -/
def mod0 : Bytes :=
  streamBuffer (asciiGetBytes ModHeader.headerMagic ++ (intBytes 0 ++ (intBytes 0 ++ (intBytes 0 ++
    (intBytes 0 ++ intBytes 0)))))

/-- The segments are placed as by `CreateNso`. -/
def createRwDataNso (rwdata : Bytes) : Except Exception Nso :=
  let nso := createNso [] mod0 rwdata 0
  match ModHeader.ofNso nso with
  | .ok m => .ok { nso with modSection := some m }
  | .error (.app (.nso _)) => .ok { nso with modSection := none }
  | .error x => .error x

/-- The name at the start of the read-only data, without its null characters. -/
def readBinName : Reads AppError String := do
  setPosition 4
  let len ← readInt32
  let name ← readBytes len.toInt
  return String.ofList ((asciiGetString name).toList.filter (· ≠ Char.ofNat 0))

def getBinName (nso : Nso) : Except Exception String :=
  (readBinName (.ofBytes nso.rodataSegment.rawData)).map Prod.fst

variable {nso nso' : Nso} {codec : Lz4Codec AppError} {file : Bytes}

theorem length_mod0 : mod0.length = 0x100 := by
  simp only [mod0, streamBuffer, List.length_append, List.length_replicate, length_intBytes,
    ModHeader.length_headerMagic]

/-- The header that is written. -/
def zeroHeader : ModHeader := ⟨0, 0, 0, 0, 0, 0, 0, none⟩

theorem slice_mod0_header : slice mod0 0 0x1C = zeroHeader.raw := by decide

theorem slice_mod0_pointer : slice mod0 4 4 = uintBytes 0 := by decide

section created

variable (rwdata : Bytes)

theorem text_created : ((createNso [] mod0 rwdata 0).segments text).address = 0 ∧
    ((createNso [] mod0 rwdata 0).segments text).decompressedSize = 0 := ⟨rfl, rfl⟩

theorem rodata_created : ((createNso [] mod0 rwdata 0).segments rodata).address = 0 ∧
    ((createNso [] mod0 rwdata 0).segments rodata).decompressedSize = 0x100 := by
  constructor
  · change pageSize [] = 0
    decide
  · change UInt32.ofNat mod0.length = 0x100
    rw [length_mod0]
    rfl

theorem getAddressSegment_created {addr : UInt32} (hlt : addr.toNat < 0x100) :
    (createNso [] mod0 rwdata 0).getAddressSegment addr = some rodata := by
  have hzero : (0 : UInt32).toNat = 0 := rfl
  have hsize : (0x100 : UInt32).toNat = 0x100 := rfl
  have htext : ¬ ((createNso [] mod0 rwdata 0).segments text).Contains addr := by
    rw [NsoSegment.contains_iff, (text_created rwdata).1, (text_created rwdata).2, hzero]
    omega
  have hrodata : ((createNso [] mod0 rwdata 0).segments rodata).Contains addr := by
    rw [NsoSegment.contains_iff, (rodata_created rwdata).1, (rodata_created rwdata).2, hzero, hsize]
    omega
  have hall : all = [text, rodata, NsoSegmentType.rwdata] := rfl
  rw [Nso.getAddressSegment, hall, List.find?_cons_of_neg (by simpa using htext),
    List.find?_cons_of_pos (by simpa using hrodata)]

theorem readNso_created {addr : UInt32} {n : ℕ} (hn : addr.toNat + n ≤ 0x100) (hpos : 0 < n) :
    (createNso [] mod0 rwdata 0).readNso addr n = .ok (slice mod0 addr.toNat n) := by
  obtain ⟨haddr, hsize⟩ := rodata_created rwdata
  have hraw : ((createNso [] mod0 rwdata 0).segments rodata).rawData = mod0 := rfl
  have hzero : (0 : UInt32).toNat = 0 := rfl
  have hnat : (0x100 : UInt32).toNat = 0x100 := rfl
  have hmax : (0x100 : ℕ) ≤ maxArrayLength := by decide
  have hread := readNso_of_getAddressSegment (n := n)
    (getAddressSegment_created rwdata (by omega : addr.toNat < 0x100))
    (by rw [haddr, hsize, hzero, hnat]; omega)
    (by rw [haddr, hraw, length_mod0, hzero]; omega) (by omega)
  rwa [haddr, hraw, hzero, Nat.sub_zero] at hread

theorem hasHeader_created : (createNso [] mod0 rwdata 0).HasHeader zeroHeader := by
  have hword : (createNso [] mod0 rwdata 0).readNso 4 (4 : ℕ) = .ok (slice mod0 4 4) :=
    readNso_created rwdata (by decide) (by decide)
  have hbase : (createNso [] mod0 rwdata 0).getModAddr = .ok 0 := by
    refine except_bind_eq_ok.mpr ⟨_, hword, ?_⟩
    rw [slice_mod0_pointer]
    rfl
  have hread : (createNso [] mod0 rwdata 0).readNso 0 (0x1C : ℕ) = .ok (slice mod0 0 0x1C) :=
    readNso_created rwdata (by decide) (by decide)
  obtain ⟨br, hbr⟩ := ModHeader.readFields_raw 0 zeroHeader
  rw [slice_mod0_header] at hread
  exact ⟨0, _, br, hbase, hread, hbr⟩

/-- There are `0x100` bytes for the `0x200` of a dynamic table. -/
theorem ofNso_created :
    ModHeader.ofNso (createNso [] mod0 rwdata 0) = .error (.app (.nso "Invalid Size")) := by
  apply (hasHeader_created rwdata).ofNso_eq_error
  have haddr : uintOfLong zeroHeader.dynamicAddr = 0 := by decide
  have hread : (createNso [] mod0 rwdata 0).readNso 0 0x200 =
      .error (.app (.nso "Invalid Size")) := by
    have hend : ((createNso [] mod0 rwdata 0).segments rodata).endAddress.toNat = 0x100 := by
      rw [NsoSegment.endAddress, (rodata_created rwdata).1, (rodata_created rwdata).2]
      rfl
    rw [readNso]
    simp only [getAddressSegment_created rwdata (by decide : (0 : UInt32).toNat < 0x100), hend]
    exact if_pos (by decide)
  rw [DynamicInfo.ofNso, haddr, hread]
  rfl

theorem createRwDataNso_eq : createRwDataNso rwdata = .ok (createNso [] mod0 rwdata 0) := by
  have herror := ofNso_created rwdata
  have hsame : createNso [] mod0 rwdata 0 =
      { createNso [] mod0 rwdata 0 with modSection := none } := rfl
  unfold createRwDataNso
  generalize createNso [] mod0 rwdata 0 = nso at herror hsame
  rw [hsame]
  simp only [← hsame, herror]

end created

/-! ### The file of such an NSO -/

/-- The file of an NSO of data is read back without a module section. -/
theorem exists_parseFile_created (hc : codec.Lawful) {rwdata : Bytes}
    (hrw : rwdata.length ≤ maxArrayLength)
    (hw : writeFile codec (createNso [] mod0 rwdata 0) = .ok file nso')
    (hlen : file.length < 2 ^ 32) :
    ∃ nso₂, parseFile codec file = .ok nso₂ ∧ nso₂.modSection = none ∧
      nso₂.SameImage (createNso [] mod0 rwdata 0) := by
  have hmod0 : mod0.length ≤ maxArrayLength := length_mod0.trans_le (by decide)
  have hs : (createNso [] mod0 rwdata 0).Storable :=
    storable_createNso 0 (Nat.zero_le _) hmod0 hrw
  obtain ⟨comp, hcomp, rfl, rfl⟩ := (writeFile_eq_ok hs.buildId).mp hw
  obtain ⟨br, hbr⟩ := hs.parseSegments_written hc hcomp hlen
  have hsame : Nso.SameImage
      { (createNso [] mod0 rwdata 0).written comp with modSection := none }
        (createNso [] mod0 rwdata 0) := ⟨fun _ => rfl, fun _ => rfl, fun _ => rfl⟩
  have hno : ModHeader.ofNso { (createNso [] mod0 rwdata 0).written comp with modSection := none } =
      .error (.app (.nso "Invalid Size")) := hsame.modHeader.trans (ofNso_created rwdata)
  exact ⟨_, parseFile_of_error hbr hno, rfl, hsame⟩

theorem getBinName_of_rodata {nso : Nso} (h : nso.rodataSegment.rawData = mod0) :
    nso.getBinName = .ok "" := by
  have hname : ∃ br, readBinName (.ofBytes mod0) = .ok ("", br) := ⟨_, rfl⟩
  obtain ⟨br, hbr⟩ := hname
  rw [getBinName, h, hbr]
  rfl

end Nso

theorem allocated_of_no_modSection {custom : Nso} (hnone : custom.modSection = none) {base : UInt32}
    (hbase : custom.getModAddr = .ok base) : Program.allocated custom = .error .nullReference := by
  have hgrow : (growBss custom).SameImage custom := custom.sameImage_setBssOrAlign rwdata _
  have hsection : (growBss custom).modSection = none := hnone
  rw [Program.allocated, allocModObj]
  simp only [hgrow.getModAddr, hbase, hsection]

open Program

/-- A run with an NSO of data for its custom module ends before it has written anything. -/
theorem patch_createRwDataNso (rt : Runtime) (hc : rt.codec.Lawful) {rwdata : Bytes}
    (hrw : rwdata.length ≤ maxArrayLength) :
    ∃ nso, Nso.createRwDataNso rwdata = .ok nso ∧ nso.modSection = none ∧
      nso.getBinName = .ok "" ∧
      ∀ file nso', Nso.writeFile rt.codec nso = .ok file nso' → file.length < 2 ^ 32 →
        ∃ nso₂, Nso.parseFile rt.codec file = .ok nso₂ ∧ nso₂.modSection = none ∧
          nso₂.getBinName = .ok "" ∧
          ∀ indir lst config outdir,
            (∃ x, patch rt ⟨indir, file, lst, config⟩ outdir = .error x outdir) ∧
              ∀ exefs, ExeFS.ofDirectory rt.codec indir = .ok exefs →
                patch rt ⟨indir, file, lst, config⟩ outdir = .error .nullReference outdir := by
  refine ⟨_, Nso.createRwDataNso_eq rwdata, rfl, Nso.getBinName_of_rodata rfl, ?_⟩
  intro file nso' hw hlen
  obtain ⟨nso₂, hparse, hnone, hsame⟩ := Nso.exists_parseFile_created hc hrw hw hlen
  obtain ⟨base, -, -, hbase, -⟩ := Nso.hasHeader_created rwdata
  have halloc : allocated nso₂ = .error .nullReference :=
    allocated_of_no_modSection hnone (hsame.getModAddr.trans hbase)
  have hloaded : ∀ indir lst config outdir exefs, ExeFS.ofDirectory rt.codec indir = .ok exefs →
      patch rt ⟨indir, file, lst, config⟩ outdir = .error .nullReference outdir := by
    intro indir lst config outdir exefs hexefs
    have hprepare : prepare rt ⟨indir, file, lst, config⟩ = .error .nullReference := by
      simp only [prepare, hexefs, hparse, halloc, bind, Except.bind]
    rw [patch, hprepare]
  refine ⟨nso₂, hparse, hnone, Nso.getBinName_of_rodata (hsame.rawData rodata), ?_⟩
  intro indir lst config outdir
  refine ⟨?_, fun exefs hexefs => hloaded indir lst config outdir exefs hexefs⟩
  cases hexefs : ExeFS.ofDirectory rt.codec indir with
  | ok exefs => exact ⟨_, hloaded indir lst config outdir exefs hexefs⟩
  | error x =>
    refine ⟨x, ?_⟩
    have hprepare : prepare rt ⟨indir, file, lst, config⟩ = .error x := by
      simp only [prepare, hexefs, bind, Except.bind]
    rw [patch, hprepare]

/-- The block of the module header: five literals, a match of 246 zeros, and five zeros. -/
def mod0Block : Bytes := [0x5F, 0x4D, 0x4F, 0x44, 0x30, 0, 1, 0, 0xE3, 0x50, 0, 0, 0, 0, 0]

/-- Literals, and the one block. -/
def mod0Codec : Lz4Codec AppError where
  encode x := if x = Nso.mod0 then .ok mod0Block else Lz4Codec.literals.encode x
  decode y n := if y = mod0Block ∧ n = 0x100 then .ok Nso.mod0 else Lz4Codec.literals.decode y n

section mod0Codec

variable {x y : Bytes} {n : ℤ}

theorem encode_mod0 : mod0Codec.encode Nso.mod0 = .ok mod0Block := by
  simp only [mod0Codec, if_true]

theorem encode_of_ne_mod0 (h : x ≠ Nso.mod0) :
    mod0Codec.encode x = Lz4Codec.literals.encode x := if_neg h

theorem decode_mod0Block : mod0Codec.decode mod0Block 0x100 = .ok Nso.mod0 := by
  simp only [mod0Codec, and_self, if_true]

theorem decode_of_not_mod0Block (h : ¬ (y = mod0Block ∧ n = 0x100)) :
    mod0Codec.decode y n = Lz4Codec.literals.decode y n := if_neg h

theorem lawful_mod0Codec : mod0Codec.Lawful where
  decode_encode x y hlen h := by
    by_cases hx : x = Nso.mod0
    · rw [hx, encode_mod0, Except.ok.injEq] at h
      rw [hx, Nso.length_mod0, ← h]
      exact decode_mod0Block
    · rw [encode_of_ne_mod0 hx] at h
      have hshort : x.length ≤ Lz4Codec.maxLiterals := by
        by_contra hlong
        simp only [Lz4Codec.literals, if_neg hlong] at h
        cases h
      have hne : ¬ (y = mod0Block ∧ (x.length : ℤ) = 0x100) := by
        unfold Lz4Codec.maxLiterals at hshort
        omega
      rw [decode_of_not_mod0Block hne]
      exact Lz4Codec.lawful_literals.decode_encode x y hlen h
  length_encode x y h := by
    by_cases hx : x = Nso.mod0
    · rw [hx, encode_mod0, Except.ok.injEq] at h
      rw [← h]
      decide
    · rw [encode_of_ne_mod0 hx] at h
      exact Lz4Codec.lawful_literals.length_encode x y h
  length_decode y n x h := by
    by_cases hblock : y = mod0Block ∧ n = 0x100
    · rw [hblock.1, hblock.2, decode_mod0Block, Except.ok.injEq] at h
      rw [← h, Nso.length_mod0, hblock.2]
      rfl
    · rw [decode_of_not_mod0Block hblock] at h
      exact Lz4Codec.lawful_literals.length_decode y n x h

end mod0Codec

/-- Three bytes of data, as the custom module of an empty directory. -/
theorem patch_createRwDataNso_bytes : ∃ nso file nso', Nso.createRwDataNso [1, 2, 3] = .ok nso ∧
    Nso.writeFile mod0Codec nso = .ok file nso' ∧ ∃ nso₂, Nso.parseFile mod0Codec file = .ok nso₂ ∧
      nso₂.modSection = none ∧
        ∃ x, patch ⟨mod0Codec, .ordinal, fun _ => []⟩ ⟨fun _ => none, file, [], []⟩
          (fun _ => none) = .error x (fun _ => none) := by
  have hcomp : ∀ t, Nso.stored mod0Codec ((Nso.createNso [] Nso.mod0 [1, 2, 3] 0).segments t) =
      .ok (Nso.ofSegments [0] mod0Block [0x30, 1, 2, 3] t) := by
    have hne : ∀ data : Bytes, data.length < 0x100 → data ≠ Nso.mod0 := by
      rintro data hlt rfl
      exact absurd Nso.length_mod0 hlt.ne
    intro t
    cases t with
    | text => exact encode_of_ne_mod0 (hne [] (by decide))
    | rodata =>
      have hrodata : ((Nso.createNso [] Nso.mod0 [1, 2, 3] 0).segments rodata).rawData = Nso.mod0 :=
        rfl
      have hcompressed : ((Nso.createNso [] Nso.mod0 [1, 2, 3] 0).segments rodata).compressed =
          true := rfl
      rw [Nso.stored, if_pos hcompressed, hrodata, encode_mod0, Nso.ofSegments]
    | rwdata => exact encode_of_ne_mod0 (hne [1, 2, 3] (by decide))
  have hbuild : (Nso.createNso [] Nso.mod0 [1, 2, 3] 0).buildId.length = 0x20 := rfl
  have hw := (Nso.writeFile_eq_ok hbuild).mpr ⟨_, hcomp, rfl, rfl⟩
  have hlen : ((Nso.createNso [] Nso.mod0 [1, 2, 3] 0).storedFile
      (Nso.ofSegments [0] mod0Block [0x30, 1, 2, 3])).length < 2 ^ 32 := by
    rw [Nso.length_storedFile hbuild]
    decide
  obtain ⟨nso, hcreate, -, -, hfile⟩ := patch_createRwDataNso ⟨mod0Codec, .ordinal, fun _ => []⟩
    lawful_mod0Codec (by decide : ([1, 2, 3] : Bytes).length ≤ maxArrayLength)
  obtain rfl := Except.ok.inj ((Nso.createRwDataNso_eq [1, 2, 3]).symm.trans hcreate)
  obtain ⟨nso₂, hparse, hnone, -, hpatch⟩ := hfile _ _ hw hlen
  exact ⟨_, _, _, hcreate, hw, nso₂, hparse, hnone, (hpatch _ _ _ _).1⟩

end Sp2Module
