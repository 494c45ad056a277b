import Sp2Module.NsoBuffers
import Sp2Module.Utf8

/-!
# The dynamic symbol table

`GetSymbolTable` reads the two tables through `ReadNso` and decodes a record of 24 bytes for each
turn of its loop. The cast of a size to a signed one hides the sizes from `2 ^ 31` on from the
check of `ReadNso`, and the last turn may begin within the last 24 bytes: these two cases end in
exceptions of the library.
-/

namespace Sp2Module

open BinaryReader NsoSegmentType

/-- Enumerations of the source; a value of four bits need not be one of the named. -/
abbrev SymbolBindingEnum := UInt8
abbrev SymbolTypeEnum := UInt8

structure Elf64Sym where
  stName : UInt32
  stInfo : UInt8
  stOther : UInt8
  stShndx : UInt16
  stValue : UInt64
  stSize : UInt64
deriving DecidableEq, Repr

def elf64SymSize : ℕ := 0x18

def elf64Sym : Reads AppError Elf64Sym := do
  let stName ← readUInt32
  let stInfo ← readByte
  let stOther ← readByte
  let stShndx ← readUInt16
  let stValue ← readUInt64
  let stSize ← readUInt64
  pure ⟨stName, stInfo, stOther, stShndx, stValue, stSize⟩

structure NsoSymbol where
  value : String
  address : UInt64
  size : UInt64
  binding : SymbolBindingEnum
  type : SymbolTypeEnum
deriving DecidableEq, Repr

namespace NsoSymbol

/-- The loop over the string table, from the octets at index `st_name` on. -/
def strBuff : Bytes → Bytes
  | [] => []
  | b :: bs => if b ≠ 0 then b :: strBuff bs else []

/-- `NsoSymbol(sym, strTableBuff)`. -/
def ofSym (sym : Elf64Sym) (strTableBuff : Bytes) : NsoSymbol where
  value := Utf8.getString (strBuff (strTableBuff.drop sym.stName.toNat))
  address := sym.stValue
  size := sym.stSize
  binding := sym.stInfo >>> 4
  type := sym.stInfo &&& 0xF

end NsoSymbol

namespace Nso

/-- The loop of `GetSymbolTable`; a turn moves `i` by the size of a record. -/
def readSymbols (symTableBuff strTableBuff : Bytes) : ℕ → ℕ → Reads AppError (List NsoSymbol)
  | 0, _ => pure []
  | fuel + 1, i =>
    if i < symTableBuff.length then do
      let sym ← elf64Sym
      let symbols ← readSymbols symTableBuff strTableBuff fuel (i + elf64SymSize)
      pure (.ofSym sym strTableBuff :: symbols)
    else pure []

def symTableAddr (nso : Nso) : UInt32 := nso.rodataSegment.address + nso.dynamicSymbolTable.offset
def strTableAddr (nso : Nso) : UInt32 := nso.rodataSegment.address + nso.dynamicStringTable.offset

/-- The sizes of the extents are cast to `int`. -/
def getSymbolTable (nso : Nso) : Except Exception (List NsoSymbol) := do
  let symTableBuff ← nso.readNso nso.symTableAddr nso.dynamicSymbolTable.size.toInt32.toInt
  let strTableBuff ← nso.readNso nso.strTableAddr nso.dynamicStringTable.size.toInt32.toInt
  let (symbols, _) ← readSymbols symTableBuff strTableBuff
    (symTableBuff.length / elf64SymSize + 1) 0 (.ofBytes symTableBuff)
  pure symbols

end Nso

/-! ### Records -/

/-- The record at offset `p` of a symbol table. -/
def symAt (b : Bytes) (p : ℕ) : Elf64Sym where
  stName := uintOfBytes (slice b p 4)
  stInfo := byteOfBytes (slice b (p + 4) 1)
  stOther := byteOfBytes (slice b (p + 5) 1)
  stShndx := ushortOfBytes (slice b (p + 6) 2)
  stValue := ulongOfBytes (slice b (p + 8) 8)
  stSize := ulongOfBytes (slice b (p + 16) 8)

theorem fixed_elf64Sym : Fixed elf64SymSize elf64Sym symAt :=
  ((fixed_fillBuffer (by decide)).map uintOfBytes).bind fun _ =>
    ((fixed_fillBuffer (by decide)).map byteOfBytes).bind fun _ =>
      ((fixed_fillBuffer (by decide)).map byteOfBytes).bind fun _ =>
        ((fixed_fillBuffer (by decide)).map ushortOfBytes).bind fun _ =>
          ((fixed_fillBuffer (by decide)).map ulongOfBytes).bind fun _ =>
            ((fixed_fillBuffer (by decide)).map ulongOfBytes).bind fun _ => fixed_pure _

/-- The octets of the name at offset `n` of a string table. -/
def nameAt (strTable : Bytes) (n : ℕ) : Bytes := (strTable.drop n).takeWhile (· ≠ 0)

theorem NsoSymbol.strBuff_eq (b : Bytes) : strBuff b = b.takeWhile (· ≠ 0) := by
  induction b with
  | nil => rfl
  | cons x b ih =>
    rw [strBuff, List.takeWhile_cons, ih]
    simp only [decide_eq_true_eq]

/-- Symbol `k` of a table, with the fields of record `k`. -/
def symbolAt (symTable strTable : Bytes) (k : ℕ) : NsoSymbol where
  value := Utf8.getString (nameAt strTable (uintOfBytes (slice symTable (24 * k) 4)).toNat)
  address := ulongOfBytes (slice symTable (24 * k + 8) 8)
  size := ulongOfBytes (slice symTable (24 * k + 16) 8)
  binding := byteOfBytes (slice symTable (24 * k + 4) 1) >>> 4
  type := byteOfBytes (slice symTable (24 * k + 4) 1) &&& 0xF

theorem ofSym_symAt (symTable strTable : Bytes) (k : ℕ) :
    NsoSymbol.ofSym (symAt symTable (24 * k)) strTable = symbolAt symTable strTable k := by
  rw [NsoSymbol.ofSym, NsoSymbol.strBuff_eq]
  rfl

/-! ### The loop -/

namespace Nso

variable {symTable strTable : Bytes} {i m fuel : ℕ}

theorem elf64Sym_of_le {br : BinaryReader} (h : br.position + 24 ≤ br.bytes.length) :
    elf64Sym br = .ok (symAt br.bytes br.position, br.advance 24) :=
  (fixed_elf64Sym br (by omega)).trans (if_pos h)

theorem elf64Sym_of_lt {br : BinaryReader} (hp : br.position ≤ br.bytes.length)
    (h : br.bytes.length < br.position + 24) : elf64Sym br = .error .endOfStream :=
  (fixed_elf64Sym br hp).trans (if_neg (Nat.not_le.mpr h))

/-- A turn with a whole record. -/
theorem readSymbols_of_le (h : 24 * (i + 1) ≤ symTable.length) :
    readSymbols symTable strTable (fuel + 1) (24 * i) ⟨symTable, 24 * i⟩ =
      (readSymbols symTable strTable fuel (24 * (i + 1)) ⟨symTable, 24 * (i + 1)⟩).map fun r =>
        (symbolAt symTable strTable i :: r.1, r.2) := by
  have hsym : elf64Sym ⟨symTable, 24 * i⟩ =
      .ok (symAt symTable (24 * i), ⟨symTable, 24 * (i + 1)⟩) :=
    elf64Sym_of_le (by dsimp only; omega)
  rw [readSymbols, if_pos (by omega), bind_of_ok hsym, ofSym_symAt]
  rfl

/-- Whole records are decoded one by one. -/
theorem readSymbols_of_eq (h : 24 * (i + m) = symTable.length) (hfuel : m < fuel) :
    readSymbols symTable strTable fuel (24 * i) ⟨symTable, 24 * i⟩ =
      .ok ((List.range m).map fun k => symbolAt symTable strTable (i + k),
        ⟨symTable, symTable.length⟩) := by
  obtain ⟨fuel, rfl⟩ := Nat.exists_eq_add_one_of_ne_zero (Nat.ne_of_gt (Nat.zero_lt_of_lt hfuel))
  induction m generalizing i fuel with
  | zero =>
    rw [readSymbols, if_neg (by omega), ← h]
    rfl
  | succ m ih =>
    obtain ⟨fuel, rfl⟩ := Nat.exists_eq_add_one_of_ne_zero (by omega : fuel ≠ 0)
    rw [readSymbols_of_le (by omega), ih (by omega) fuel (by omega), List.range_succ_eq_map,
      List.map_cons, List.map_map, Except.map]
    simp only [Function.comp_def, Nat.add_zero, Nat.succ_eq_add_one, Nat.add_assoc, Nat.add_comm 1]

/-- A record that is not whole ends the loop with an exception. -/
theorem readSymbols_of_lt (h : 24 * (i + m) < symTable.length)
    (h' : symTable.length < 24 * (i + m) + 24) (hfuel : m < fuel) :
    readSymbols symTable strTable fuel (24 * i) ⟨symTable, 24 * i⟩ = .error .endOfStream := by
  obtain ⟨fuel, rfl⟩ := Nat.exists_eq_add_one_of_ne_zero (Nat.ne_of_gt (Nat.zero_lt_of_lt hfuel))
  induction m generalizing i fuel with
  | zero =>
    rw [readSymbols, if_pos (by omega),
      bind_of_error (elf64Sym_of_lt (by dsimp only; omega) (by dsimp only; omega))]
  | succ m ih =>
    obtain ⟨fuel, rfl⟩ := Nat.exists_eq_add_one_of_ne_zero (by omega : fuel ≠ 0)
    rw [readSymbols_of_le (by omega), ih (by omega) (by omega) fuel (by omega), Except.map]

/-! ### The two tables -/

variable {nso : Nso} {addr size : UInt32} {b : Bytes}

/-- The `n` bytes of the image at `addr`, all of one segment. -/
def TableAt (nso : Nso) (addr : UInt32) (n : ℕ) (b : Bytes) : Prop :=
  ∃ t, nso.getAddressSegment addr = some t ∧ nso.InSegment t addr n ∧
    b = slice (nso.segments t).rawData (addr.toNat - (nso.segments t).address.toNat) n

/-- No segment has all of the `n` bytes at `addr`. -/
def TableOutside (nso : Nso) (addr : UInt32) (n : ℕ) : Prop :=
  ∀ t, nso.getAddressSegment addr = some t → ¬ nso.InSegment t addr n

/-- The size of a table that is looked up at all is one of an `int`. -/
def IntSize (nso : Nso) (addr size : UInt32) : Prop :=
  nso.getAddressSegment addr = none ∨ size.toNat < 2 ^ 31

theorem TableAt.not_outside {n : ℕ} (h : nso.TableAt addr n b) : ¬ nso.TableOutside addr n := by
  obtain ⟨t, hseg, hin, -⟩ := h
  exact fun hout => hout t hseg hin

theorem TableAt.length_eq {n : ℕ} (hs : nso.Sized) (h : nso.TableAt addr n b) : b.length = n := by
  obtain ⟨t, -, ⟨hc, hend⟩, rfl⟩ := h
  have hle := ((nso.segments t).contains_iff addr).mp hc
  have hlen := hs t
  rw [length_slice]
  omega

/-- How `ReadNso` ends for a size cast to `int`. -/
inductive CastRead (nso : Nso) (addr size : UInt32) (r : Except Exception Bytes) : Prop where
  | ok (b : Bytes) (hsize : nso.IntSize addr size) (h : nso.TableAt addr size.toNat b)
    (hr : r = .ok b)
  | refused (message : String) (hsize : nso.IntSize addr size)
    (h : nso.TableOutside addr size.toNat) (hr : r = .error (.app (.nso message)))
  | negative (hsize : ¬ nso.IntSize addr size) (h : nso.TableOutside addr size.toNat)
    (hr : r = .error .argumentOutOfRange)

theorem toInt_toInt32 (x : UInt32) :
    x.toInt32.toInt = if x.toNat < 2 ^ 31 then (x.toNat : ℤ) else x.toNat - 2 ^ 32 := by
  have hlt := x.toNat_lt
  have hbmod : x.toInt32.toInt = (x.toNat : ℤ).bmod (2 ^ 32) := by
    nth_rewrite 1 [← UInt32.ofNat_toNat (x := x)]
    rw [UInt32.toInt32_ofNat', Int32.toInt_ofNat']
    rfl
  rw [hbmod]
  split_ifs with h
  · exact Int.bmod_eq_of_le_mul_two (by omega) (by omega)
  · rw [Int.bmod_def]
    omega

theorem SizedArrays.castRead (h : nso.SizedArrays) (addr size : UInt32) :
    nso.CastRead addr size (nso.readNso addr size.toInt32.toInt) := by
  have hsize := size.toNat_lt
  rw [toInt_toInt32]
  cases hseg : nso.getAddressSegment addr with
  | none =>
    refine .refused "Invalid Address" (.inl hseg) (fun t ht => ?_) (by simp only [readNso, hseg])
    rw [hseg] at ht
    cases ht
  | some t =>
    have hc := getAddressSegment_eq_some hseg
    have hle := ((nso.segments t).contains_iff addr).mp hc
    have hlen := h.1 t
    have hmax := h.2 t
    have hmaxlt := maxArrayLength_lt
    by_cases hint : size.toNat < 2 ^ 31
    · rw [if_pos hint]
      by_cases hend : addr.toNat + size.toNat ≤
          (nso.segments t).address.toNat + (nso.segments t).decompressedSize.toNat
      · exact .ok _ (.inr hint) ⟨t, hseg, ⟨hc, hend⟩, rfl⟩
          (readNso_of_getAddressSegment hseg hend (by omega) (by omega))
      · refine .refused "Invalid Size" (.inr hint) (fun u hu hin => ?_) ?_
        · rw [hseg] at hu
          cases hu
          exact hend hin.2
        · simp only [readNso, hseg]
          rw [hc.toNat_endAddress, if_pos (by omega)]
    · rw [if_neg hint]
      refine .negative (fun hcast => ?_) (fun u hu hin => ?_) ?_
      · rcases hcast with hnone | hlt
        · rw [hseg] at hnone
          cases hnone
        · exact hint hlt
      · rw [hseg] at hu
        cases hu
        have hin' := hin.2
        omega
      · simp only [readNso, hseg]
        rw [hc.toNat_endAddress, NsoSegment.toNat_sub_address hc, memoryRead, if_neg (by omega),
          if_neg (by omega), if_pos (by omega)]

/-- What the symbol table is to give: a symbol for each whole record, or an `NsoException`. -/
def DecodesSymbols (nso : Nso) (r : Except Exception (List NsoSymbol)) : Prop :=
  (∃ message, r = .error (.app (.nso message))) ∨
    ∃ symTable strTable, nso.TableAt nso.symTableAddr nso.dynamicSymbolTable.size.toNat symTable ∧
      nso.TableAt nso.strTableAddr nso.dynamicStringTable.size.toNat strTable ∧
      r = .ok ((List.range (nso.dynamicSymbolTable.size.toNat / 24)).map
        (symbolAt symTable strTable))

/-- The sizes are those of an `int`, and a symbol table that is read consists of whole records. -/
def SymbolExtents (nso : Nso) : Prop :=
  nso.IntSize nso.symTableAddr nso.dynamicSymbolTable.size ∧
    (nso.TableOutside nso.symTableAddr nso.dynamicSymbolTable.size.toNat ∨
      nso.IntSize nso.strTableAddr nso.dynamicStringTable.size ∧
        (nso.TableOutside nso.strTableAddr nso.dynamicStringTable.size.toNat ∨
          24 ∣ nso.dynamicSymbolTable.size.toNat))

theorem not_decodesSymbols {x : Exception} (hx : ∀ message, x ≠ .app (.nso message)) :
    ¬ nso.DecodesSymbols (.error x) := by
  rintro (⟨message, hr⟩ | ⟨symTable, strTable, hsym, hstr, hr⟩)
  · cases hr
    exact hx message rfl
  · cases hr

/-- Two tables that can be read are decoded, unless the symbol table ends in part of a record. -/
theorem getSymbolTable_of_readNso
    (hsym : nso.readNso nso.symTableAddr nso.dynamicSymbolTable.size.toInt32.toInt = .ok symTable)
    (hstr : nso.readNso nso.strTableAddr nso.dynamicStringTable.size.toInt32.toInt =
      .ok strTable) :
    nso.getSymbolTable = if 24 ∣ symTable.length then
        .ok ((List.range (symTable.length / 24)).map (symbolAt symTable strTable))
      else .error .endOfStream := by
  simp only [getSymbolTable, hsym, hstr, bind, Except.bind, elf64SymSize]
  split_ifs with hdvd
  · have hloop : readSymbols symTable strTable (symTable.length / 24 + 1) (24 * 0)
        ⟨symTable, 24 * 0⟩ =
          .ok ((List.range (symTable.length / 24)).map fun k => symbolAt symTable strTable (0 + k),
            ⟨symTable, symTable.length⟩) :=
      readSymbols_of_eq (by omega) (Nat.lt_succ_self _)
    simp only [Nat.zero_add] at hloop
    rw [Nat.mul_zero] at hloop
    rw [BinaryReader.ofBytes, hloop]
    rfl
  · have hloop : readSymbols symTable strTable (symTable.length / 24 + 1) (24 * 0)
        ⟨symTable, 24 * 0⟩ = .error .endOfStream :=
      readSymbols_of_lt (m := symTable.length / 24) (by omega) (by omega) (Nat.lt_succ_self _)
    rw [Nat.mul_zero] at hloop
    rw [BinaryReader.ofBytes, hloop]

theorem SizedArrays.getSymbolTable_decodes_iff (h : nso.SizedArrays) :
    nso.DecodesSymbols nso.getSymbolTable ↔ nso.SymbolExtents := by
  unfold SymbolExtents
  cases h.castRead nso.symTableAddr nso.dynamicSymbolTable.size with
  | refused message hsize hout hr =>
    simp only [getSymbolTable, hr, bind, Except.bind]
    exact iff_of_true (.inl ⟨message, rfl⟩) ⟨hsize, .inl hout⟩
  | negative hsize hout hr =>
    simp only [getSymbolTable, hr, bind, Except.bind]
    exact iff_of_false (not_decodesSymbols (by simp)) (fun hext => hsize hext.1)
  | ok symTable hint hsym hr =>
    have hin := hsym.not_outside
    cases h.castRead nso.strTableAddr nso.dynamicStringTable.size with
    | refused message hsize hout hr' =>
      simp only [getSymbolTable, hr, hr', bind, Except.bind]
      exact iff_of_true (.inl ⟨message, rfl⟩) ⟨hint, .inr ⟨hsize, .inl hout⟩⟩
    | negative hsize hout hr' =>
      simp only [getSymbolTable, hr, hr', bind, Except.bind]
      exact iff_of_false (not_decodesSymbols (by simp))
        (fun hext => hext.2.elim hin fun hstr => hsize hstr.1)
    | ok strTable hint' hstr hr' =>
      rw [getSymbolTable_of_readNso hr hr', hsym.length_eq h.1]
      by_cases hdvd : 24 ∣ nso.dynamicSymbolTable.size.toNat
      · rw [if_pos hdvd]
        exact iff_of_true (.inr ⟨symTable, strTable, hsym, hstr, rfl⟩)
          ⟨hint, .inr ⟨hint', .inr hdvd⟩⟩
      · rw [if_neg hdvd]
        refine iff_of_false (not_decodesSymbols (by simp)) ?_
        rintro ⟨-, hout | ⟨-, hout | hdvd'⟩⟩
        · exact hin hout
        · exact hstr.not_outside hout
        · exact hdvd hdvd'

/-- A rodata with one record and the string table `"\0a\0"`. -/
def symbolImage : Nso :=
  createNso [] [1, 0, 0, 0, 0x12, 0, 0, 0, 0x10, 0, 0, 0, 0, 0, 0, 0, 4, 0, 0, 0, 0, 0, 0, 0,
    0, 0x61, 0] [] 0

/-- The image with a symbol table of the given size. -/
def symbolNso (size : UInt32) : Nso :=
  { symbolImage with dynamicSymbolTable := ⟨0, size⟩, dynamicStringTable := ⟨24, 3⟩ }

theorem sizedArrays_symbolNso (size : UInt32) : (symbolNso size).SizedArrays := by
  have himage : symbolImage.SizedArrays := by
    constructor
    all_goals
      intro t
      cases t <;> decide
  exact himage

example : (symbolNso 24).getSymbolTable = .ok [⟨"a", 0x10, 4, 1, 2⟩] := by decide

theorem getSymbolTable_decodes_symbolNso :
    (symbolNso 24).DecodesSymbols (symbolNso 24).getSymbolTable := by
  rw [(sizedArrays_symbolNso 24).getSymbolTable_decodes_iff]
  exact ⟨.inr (by decide), .inr ⟨.inr (by decide), .inr (by decide)⟩⟩

/-- A table of 25 bytes ends in part of a record. -/
theorem getSymbolTable_not_decodes :
    ¬ ∀ nso : Nso, nso.SizedArrays → nso.DecodesSymbols nso.getSymbolTable := by
  intro h
  have hend : (symbolNso 25).getSymbolTable = .error .endOfStream := by decide
  have hdec := h (symbolNso 25) (sizedArrays_symbolNso 25)
  rw [hend] at hdec
  exact not_decodesSymbols (by simp) hdec

end Nso

end Sp2Module
