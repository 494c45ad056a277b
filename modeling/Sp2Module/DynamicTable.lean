import Sp2Module.NsoRoundTrip
import Mathlib.Data.List.Induction

/-!
# Dynamic tables

A dynamic table is read from a window of `0x200` bytes up to its first null entry. What is decoded
is, for every property, the value of the last entry with its tag; the property of the relocations
goes by another tag than theirs. A table whose null entry is not in the window ends the reading
with an exception that the loading of an NSO does not catch.
-/

namespace Sp2Module

open BinaryReader NsoSegmentType

/-! ### Tables in a buffer -/

/-- The entry at offset `off`. -/
def entryAt (b : Bytes) (off : ℕ) : Elf64Dyn :=
  ⟨ulongOfBytes (slice b off 8), ulongOfBytes (slice b (off + 8) 8)⟩

/-- The entries `es` stand one after another from offset `off` on, and a null entry ends them. -/
def TableAt (b : Bytes) : ℕ → List Elf64Dyn → Prop
  | off, [] => off + 16 ≤ b.length ∧ (entryAt b off).dTag = DtTagEnum.dtNull
  | off, dyn :: es => entryAt b off = dyn ∧ dyn.dTag ≠ DtTagEnum.dtNull ∧ TableAt b (off + 16) es

/-- The value of the last entry with the tag, 0 where there is none. -/
def lastValue (es : List Elf64Dyn) (tag : DtTagEnum) : UInt64 :=
  ((es.filter fun dyn => dyn.dTag = tag).getLast?.map Elf64Dyn.dUn).getD 0

variable {b : Bytes} {off n k : ℕ} {es : List Elf64Dyn} {info : DynamicInfo}

theorem TableAt.le_length (h : TableAt b off es) : off + 16 * (es.length + 1) ≤ b.length := by
  induction es generalizing off with
  | nil => exact h.1
  | cons dyn es ih =>
    have hle := ih h.2.2
    rw [List.length_cons]
    omega

theorem TableAt.dTag_ne (h : TableAt b off es) {i : ℕ} (hi : i < es.length) :
    (entryAt b (off + 16 * i)).dTag ≠ DtTagEnum.dtNull := by
  induction es generalizing off i with
  | nil => simp at hi
  | cons dyn es ih =>
    cases i with
    | zero =>
      rw [Nat.mul_zero, Nat.add_zero, h.1]
      exact h.2.1
    | succ i =>
      have hne := ih h.2.2 (i := i) (by rw [List.length_cons] at hi; omega)
      rwa [show off + 16 + 16 * i = off + 16 * (i + 1) by omega] at hne

/-- The first null entry ends a table. -/
theorem exists_tableAt {i : ℕ} (hi : off + 16 * i + 16 ≤ b.length)
    (hnull : (entryAt b (off + 16 * i)).dTag = DtTagEnum.dtNull) : ∃ es, TableAt b off es := by
  induction i generalizing off with
  | zero => exact ⟨[], by omega, by simpa using hnull⟩
  | succ i ih =>
    by_cases hfirst : (entryAt b off).dTag = DtTagEnum.dtNull
    · exact ⟨[], by omega, hfirst⟩
    · rw [show off + 16 * (i + 1) = off + 16 + 16 * i by omega] at hi hnull
      obtain ⟨es, hes⟩ := ih hi hnull
      exact ⟨entryAt b off :: es, rfl, hfirst, hes⟩

theorem entryAt_slice (h : k + 16 ≤ n) : entryAt (slice b off n) k = entryAt b (off + k) := by
  rw [entryAt, entryAt, slice_slice (by omega), slice_slice (by omega), Nat.add_assoc]

/-- A table that ends within a window is the table of the window. -/
theorem TableAt.slice (h : TableAt b (off + k) es) (hn : k + 16 * (es.length + 1) ≤ n) :
    TableAt (slice b off n) k es := by
  induction es generalizing k with
  | nil =>
    rw [List.length_nil] at hn
    refine ⟨?_, by rw [entryAt_slice (by omega)]; exact h.2⟩
    have hle := h.1
    rw [length_slice]
    omega
  | cons dyn es ih =>
    rw [List.length_cons] at hn
    refine ⟨by rw [entryAt_slice (by omega)]; exact h.1, h.2.1, ih ?_ (by omega)⟩
    rw [← Nat.add_assoc]
    exact h.2.2

theorem lastValue_concat (es : List Elf64Dyn) (dyn : Elf64Dyn) (tag : DtTagEnum) :
    lastValue (es ++ [dyn]) tag = if dyn.dTag = tag then dyn.dUn else lastValue es tag := by
  unfold lastValue
  rw [List.filter_append]
  by_cases h : dyn.dTag = tag
  · simp [h]
  · simp [h]

/-! ### Reading a table -/

theorem elf64Dyn_of_le {br : BinaryReader} (h : br.position + 16 ≤ br.bytes.length) :
    elf64Dyn br = .ok (entryAt br.bytes br.position, br.advance 16) := by
  have htag : (readUInt64 : Reads AppError UInt64) br = _ := readUInt64_of_le (by omega)
  have hun : (readUInt64 : Reads AppError UInt64) (br.advance 8) = _ :=
    readUInt64_of_le (by rw [position_advance, bytes_advance]; omega)
  rw [elf64Dyn, bind_of_ok htag, bind_of_ok hun]
  rfl

theorem elf64Dyn_of_lt {br : BinaryReader} (h : br.bytes.length < br.position + 16) :
    elf64Dyn br = .error .endOfStream := by
  by_cases hhalf : br.position + 8 ≤ br.bytes.length
  · have hun : (readUInt64 : Reads AppError UInt64) (br.advance 8) = _ :=
      readUInt64_of_lt (by rw [position_advance, bytes_advance]; omega)
    rw [elf64Dyn, bind_of_ok (readUInt64_of_le hhalf), bind_of_error hun]
  · rw [elf64Dyn, bind_of_error (readUInt64_of_lt (by omega))]

namespace DynamicInfo

open DtTagEnum

/-- The tag a property is set by. -/
def tagOf : DynamicProperty → DtTagEnum
  | .symTab => dtSymTab
  | .rela => dtRel
  | .relaSize => dtRelaSz
  | .jumpRela => dtJmpRel
  | .pltRelSize => dtPltRelSz
  | .stringTable => dtStrTab
  | .stringSize => dtStrSz
  | .pltGot => dtPltGot
  | .hash => dtHash
  | .gnuHash => dtGnuHash
  | .init => dtInit
  | .fini => dtFini
  | .initArray => dtInitArray
  | .initArraySize => dtInitArraySz
  | .finiArray => dtFiniArray
  | .finiArraySize => dtFiniArraySz

/-- The tag an entry with the meaning of the property has. -/
def elfTag (p : DynamicProperty) : DtTagEnum := if p = .rela then dtRela else tagOf p

theorem mem_fields (tag : DtTagEnum) (p : DynamicProperty) : (tag, p) ∈ fields ↔ tag = tagOf p := by
  cases p <;> simp [fields, tagOf]

theorem foldl_setField (items : List (DtTagEnum × DynamicProperty)) (info : DynamicInfo)
    (dyn : Elf64Dyn) (p : DynamicProperty) :
    items.foldl (fun info item =>
      if dyn.dTag = item.1 then Function.update info item.2 dyn.dUn else info) info p =
        if (dyn.dTag, p) ∈ items then dyn.dUn else info p := by
  induction items generalizing info with
  | nil => simp
  | cons item items ih =>
    rw [List.foldl_cons, ih]
    simp only [List.mem_cons]
    by_cases hmem : (dyn.dTag, p) ∈ items
    · rw [if_pos hmem, if_pos (Or.inr hmem)]
    · rw [if_neg hmem]
      by_cases htag : dyn.dTag = item.1
      · rw [if_pos htag]
        by_cases hp : p = item.2
        · rw [if_pos (Or.inl (Prod.ext htag hp)), hp, Function.update_self]
        · rw [if_neg (by simp [hp, hmem, Prod.ext_iff]), Function.update_of_ne hp]
      · rw [if_neg htag, if_neg (by simp [htag, hmem, Prod.ext_iff])]

theorem setField_apply (info : DynamicInfo) (dyn : Elf64Dyn) (p : DynamicProperty) :
    info.setField dyn p = if dyn.dTag = tagOf p then dyn.dUn else info p := by
  rw [setField, foldl_setField]
  simp only [mem_fields]

/-- Later entries overwrite earlier ones. -/
theorem foldl_setField_apply (es : List Elf64Dyn) (p : DynamicProperty) :
    es.foldl setField (fun _ => 0) p = lastValue es (tagOf p) := by
  induction es using List.reverseRecOn with
  | nil => rfl
  | append_singleton es dyn ih =>
    rw [List.foldl_concat, setField_apply, lastValue_concat, ih]

/-- The loop takes in the entries of a table and stops behind its null entry. -/
theorem readEntries_of_tableAt (h : TableAt b off es) (hn : es.length < n) :
    readEntries n info ⟨b, off⟩ =
      .ok (es.foldl setField info, ⟨b, off + 16 * (es.length + 1)⟩) := by
  induction es generalizing off n info with
  | nil =>
    obtain ⟨n, rfl⟩ := Nat.exists_eq_add_one_of_ne_zero (Nat.ne_of_gt hn)
    exact readEntries_of_null (elf64Dyn_of_le h.1) h.2
  | cons dyn es ih =>
    obtain ⟨n, rfl⟩ := Nat.exists_eq_add_one_of_ne_zero (Nat.ne_of_gt (Nat.zero_lt_of_lt hn))
    have hle := h.2.2.le_length
    have hentry : elf64Dyn ⟨b, off⟩ = .ok (dyn, ⟨b, off + 16⟩) := by
      rw [← h.1]
      exact elf64Dyn_of_le (by dsimp only; omega)
    rw [List.length_cons] at hn ⊢
    rw [readEntries, bind_of_ok hentry, if_neg h.2.1, ih h.2.2 (by omega), List.foldl_cons,
      show off + 16 + 16 * (es.length + 1) = off + 16 * (es.length + 1 + 1) by omega]

/-- Without a null entry the loop runs out of the buffer. -/
theorem readEntries_of_ne (h : ∀ i, off + 16 * i + 16 ≤ b.length →
    (entryAt b (off + 16 * i)).dTag ≠ dtNull) :
    readEntries n info ⟨b, off⟩ = .error .endOfStream := by
  induction n generalizing off info with
  | zero => rfl
  | succ n ih =>
    rw [readEntries]
    by_cases hle : off + 16 ≤ b.length
    · have hentry : elf64Dyn ⟨b, off⟩ = .ok (entryAt b off, ⟨b, off + 16⟩) := elf64Dyn_of_le hle
      have hfirst : (entryAt b off).dTag ≠ dtNull := h 0 (by omega)
      rw [bind_of_ok hentry, if_neg hfirst]
      refine ih fun i hi => ?_
      have hne := h (i + 1) (by omega)
      rwa [show off + 16 * (i + 1) = off + 16 + 16 * i by omega] at hne
    · rw [bind_of_error (elf64Dyn_of_lt (by dsimp only; omega))]

variable {nso : Nso} {addr : ℤ} {window : Bytes}

theorem ofNso_of_tableAt (hread : nso.readNso (uintOfLong addr) 0x200 = .ok window)
    (h : TableAt window 0 es) : ofNso nso addr = .ok (es.foldl setField fun _ => 0) := by
  have hle := h.le_length
  have hloop : readEntries (window.length / 16 + 1) (fun _ => 0) (.ofBytes window) = _ :=
    readEntries_of_tableAt h (by omega)
  exact except_bind_eq_ok.mpr ⟨window, hread, except_bind_eq_ok.mpr ⟨_, hloop, rfl⟩⟩

theorem ofNso_of_ne (hread : nso.readNso (uintOfLong addr) 0x200 = .ok window)
    (h : ∀ i, 16 * i + 16 ≤ window.length → (entryAt window (16 * i)).dTag ≠ dtNull) :
    ofNso nso addr = .error .endOfStream := by
  have hloop : readEntries (window.length / 16 + 1) (fun _ => 0) (.ofBytes window) = _ :=
    readEntries_of_ne (by simpa using h)
  simp only [ofNso, hread, hloop, bind, Except.bind]

end DynamicInfo

end Sp2Module
