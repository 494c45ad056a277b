import Sp2Module.Nso

/-!
# ExeFS

Thirteen slots, each empty or referring to an NSO object. `objects` is the part of the managed heap
the slots refer to, so two slots may share an object. A module's address is the sum of the sizes of
the modules in earlier slots, rounded up to a page. As for an NSO, `locate` is where a write goes
(`none` for a page without read permission) and `overlay` is what it does.
-/

namespace Sp2Module

inductive NsoTypeEnum where
  | rtld
  | main
  | subsdk0
  | subsdk1
  | subsdk2
  | subsdk3
  | subsdk4
  | subsdk5
  | subsdk6
  | subsdk7
  | subsdk8
  | subsdk9
  | sdk
deriving DecidableEq, Repr

namespace NsoTypeEnum

/-- The slots in the order of their indices. -/
def all : List NsoTypeEnum :=
  [rtld, main, subsdk0, subsdk1, subsdk2, subsdk3, subsdk4, subsdk5, subsdk6, subsdk7, subsdk8,
    subsdk9, sdk]

def index : NsoTypeEnum → ℕ
  | rtld => 0
  | main => 1
  | subsdk0 => 2
  | subsdk1 => 3
  | subsdk2 => 4
  | subsdk3 => 5
  | subsdk4 => 6
  | subsdk5 => 7
  | subsdk6 => 8
  | subsdk7 => 9
  | subsdk8 => 10
  | subsdk9 => 11
  | sdk => 12

@[simp] theorem mem_all (i : NsoTypeEnum) : i ∈ all := by cases i <;> decide

theorem getElem?_all (i : NsoTypeEnum) : all[i.index]? = some i := by cases i <;> rfl

theorem index_injective {i j : NsoTypeEnum} (h : i.index = j.index) : i = j := by
  have hi := getElem?_all i
  rw [h, getElem?_all j] at hi
  exact (Option.some.inj hi).symm

theorem sorted_all : all.Pairwise fun i j => i.index < j.index := by decide

theorem nodup_all : all.Nodup := by decide

end NsoTypeEnum

abbrev NsoRef := ℕ

structure MemPage where
  address : ℤ
  size : ℤ
  permission : SegPerm
deriving DecidableEq, Repr

def MemPage.Contains (p : MemPage) (addr : ℤ) : Prop :=
  p.address ≤ addr ∧ addr < p.address + p.size

instance (p : MemPage) (addr : ℤ) : Decidable (p.Contains addr) :=
  inferInstanceAs (Decidable (_ ∧ _))

theorem MemPage.contains_iff (p : MemPage) (addr : ℤ) :
    p.Contains addr ↔ p.address ≤ addr ∧ addr < p.address + p.size := Iff.rfl

structure ExeFS where
  objects : NsoRef → Nso
  nsos : NsoTypeEnum → Option NsoRef
  npdm : Option Bytes

namespace ExeFS

open NsoTypeEnum

variable {e : ExeFS} {i j : NsoTypeEnum} {addr : ℤ} {n : ℕ}

/-- `ExeFS(Nso main)`. -/
def ofMain (main : Nso) : ExeFS where
  objects _ := main
  nsos := Function.update (fun _ => none) .main (some 0)
  npdm := none

def getNso (e : ExeFS) (type : NsoTypeEnum) : Option NsoRef := e.nsos type

def setNso (e : ExeFS) (nso : Option NsoRef) (type : NsoTypeEnum) : ExeFS :=
  { e with nsos := Function.update e.nsos type nso }

def setObject (e : ExeFS) (r : NsoRef) (nso : Nso) : ExeFS :=
  { e with objects := Function.update e.objects r nso }

/-- The object in a slot. -/
def nsoAt (e : ExeFS) (i : NsoTypeEnum) : Option Nso := (e.nsos i).map e.objects

/-- What a slot adds to the addresses of the later ones. -/
def slotSize (e : ExeFS) (i : NsoTypeEnum) : ℤ :=
  match e.nsoAt i with
  | none => 0
  | some nso => nso.endAddress.toNat

def sizeBefore (e : ExeFS) (type : NsoTypeEnum) : ℤ :=
  ((all.take type.index).map e.slotSize).sum

def getNsoAddress (e : ExeFS) (type : NsoTypeEnum) : ℤ := alignUp 0x1000 (e.sizeBefore type)

/-- The pages of one module, after the gap that separates it from `addr`. -/
def modulePages (e : ExeFS) (i : NsoTypeEnum) (nso : Nso) (addr : ℤ) : List MemPage :=
  let baseAddr := e.getNsoAddress i
  let textStart := baseAddr + nso.startAddress.toNat
  let rodataStart := baseAddr + nso.rodataSegment.address.toNat
  let rwdataStart := baseAddr + nso.rwdataSegment.address.toNat
  let end_ := baseAddr + nso.endAddress.toNat
  (if 0 < textStart - addr then [⟨addr, textStart - addr, .none⟩] else []) ++
    [⟨textStart, rodataStart - textStart, .rx⟩,
      ⟨rodataStart, rwdataStart - rodataStart, .r⟩,
      ⟨rwdataStart, end_ - rwdataStart, .rw⟩]

def memoryMapFrom (e : ExeFS) : List NsoTypeEnum → ℤ → List MemPage
  | [], _ => []
  | i :: is, addr =>
    match e.nsoAt i with
    | none => e.memoryMapFrom is addr
    | some nso =>
      e.modulePages i nso addr ++ e.memoryMapFrom is (e.getNsoAddress i + nso.endAddress.toNat)

def getMemoryMap (e : ExeFS) : List MemPage := e.memoryMapFrom all 0

def getAddressPage (e : ExeFS) (addr : ℤ) : Option MemPage :=
  e.getMemoryMap.find? fun page => page.Contains addr

/-- The slot's module is loaded over `addr`. -/
def InImage (e : ExeFS) (addr : ℤ) (i : NsoTypeEnum) : Prop :=
  match e.nsoAt i with
  | none => False
  | some nso => e.getNsoAddress i + nso.startAddress.toNat ≤ addr ∧
      addr < e.getNsoAddress i + nso.endAddress.toNat

instance (e : ExeFS) (addr : ℤ) (i : NsoTypeEnum) : Decidable (e.InImage addr i) :=
  match h : e.nsoAt i with
  | none => isFalse (by simp [InImage, h])
  | some nso =>
    decidable_of_iff (e.getNsoAddress i + nso.startAddress.toNat ≤ addr ∧
      addr < e.getNsoAddress i + nso.endAddress.toNat) (by simp [InImage, h])

def getAddressNso (e : ExeFS) (addr : ℤ) : Option NsoRef :=
  (all.find? fun i => e.InImage addr i).bind e.nsos

/-- Never null: where no module contains the address, the source throws null. -/
def getAddressNsoType (e : ExeFS) (addr : ℤ) : Except Exception NsoTypeEnum :=
  match all.find? fun i => e.InImage addr i with
  | none => .error .nullReference
  | some i => .ok i

def writeExeFs (addr : ℤ) (data : Bytes) : EStateM Exception ExeFS Unit := fun e =>
  match e.getAddressPage addr with
  | none => .error .nullReference e
  | some page =>
    if page.permission.readable then
      let curNso := e.getAddressNso addr
      match e.getAddressNsoType addr with
      | .error x => .error x e
      | .ok type =>
        let baseAddr := e.getNsoAddress type
        match curNso with
        | none => .error .nullReference e
        | some r =>
          match Nso.writeNso (uintOfLong (addr - baseAddr)) data (e.objects r) with
          | .error x nso => .error x (e.setObject r nso)
          | .ok _ nso => .ok () (e.setObject r nso)
    else .ok () e

/-! ### Where a write goes and what it does -/

/-- The object, segment and offset a write of `n` bytes at `addr` goes to; `none` where the page is
not readable, so that the write is skipped. -/
def locate (e : ExeFS) (addr : ℤ) (n : ℕ) :
    Except Exception (Option (NsoRef × NsoSegmentType × ℕ)) :=
  match e.getAddressPage addr with
  | none => .error .nullReference
  | some page =>
    if page.permission.readable then
      match all.find? fun i => e.InImage addr i with
      | none => .error .nullReference
      | some i =>
        match e.nsos i with
        | none => .error .nullReference
        | some r =>
          ((e.objects r).locate (uintOfLong (addr - e.getNsoAddress i)) n).map fun p => some (r, p)
    else .ok none

def overlay (e : ExeFS) (r : NsoRef) (t : NsoSegmentType) (off : ℕ) (data : Bytes) : ExeFS :=
  e.setObject r ((e.objects r).overlay t off data)

@[simp] theorem nsos_setObject (r : NsoRef) (nso : Nso) : (e.setObject r nso).nsos = e.nsos := rfl
@[simp] theorem nsos_overlay (r : NsoRef) (t : NsoSegmentType) (off : ℕ) (data : Bytes) :
    (e.overlay r t off data).nsos = e.nsos := rfl
@[simp] theorem npdm_overlay (r : NsoRef) (t : NsoSegmentType) (off : ℕ) (data : Bytes) :
    (e.overlay r t off data).npdm = e.npdm := rfl

@[simp] theorem objects_setObject_same (e : ExeFS) (r : NsoRef) (nso : Nso) :
    (e.setObject r nso).objects r = nso := by simp [setObject]

theorem objects_setObject_of_ne {r r' : NsoRef} (h : r' ≠ r) (nso : Nso) :
    (e.setObject r nso).objects r' = e.objects r' := by simp [setObject, h]

@[simp] theorem setObject_self (e : ExeFS) (r : NsoRef) : e.setObject r (e.objects r) = e := by
  simp [setObject]

@[simp] theorem objects_overlay_same (r : NsoRef) (t : NsoSegmentType) (off : ℕ) (data : Bytes) :
    (e.overlay r t off data).objects r = (e.objects r).overlay t off data :=
  objects_setObject_same e r _

theorem objects_overlay_of_ne {r r' : NsoRef} (h : r' ≠ r) (t : NsoSegmentType) (off : ℕ)
    (data : Bytes) : (e.overlay r t off data).objects r' = e.objects r' :=
  objects_setObject_of_ne h _

theorem inImage_iff (e : ExeFS) (addr : ℤ) (i : NsoTypeEnum) :
    e.InImage addr i ↔ ∃ nso, e.nsoAt i = some nso ∧
      e.getNsoAddress i + nso.startAddress.toNat ≤ addr ∧
      addr < e.getNsoAddress i + nso.endAddress.toNat := by
  unfold InImage
  cases h : e.nsoAt i <;> simp

theorem nsoAt_eq_some {nso : Nso} :
    e.nsoAt i = some nso ↔ ∃ r, e.nsos i = some r ∧ e.objects r = nso := by
  simp [nsoAt]

theorem InImage.exists_ref (h : e.InImage addr i) : ∃ r, e.nsos i = some r := by
  obtain ⟨nso, hn, -⟩ := (e.inImage_iff addr i).mp h
  obtain ⟨r, hr, -⟩ := nsoAt_eq_some.mp hn
  exact ⟨r, hr⟩

theorem find?_inImage_eq_some (h : (all.find? fun i => e.InImage addr i) = some i) :
    e.InImage addr i := by
  simpa using List.find?_some h

/-- Every write is decided by `locate` and carried out by `overlay`. -/
theorem writeExeFs_eq (e : ExeFS) (addr : ℤ) (data : Bytes) :
    writeExeFs addr data e = match e.locate addr data.length with
      | .error x => .error x e
      | .ok none => .ok () e
      | .ok (some (r, t, off)) => .ok () (e.overlay r t off data) := by
  unfold writeExeFs locate
  cases e.getAddressPage addr with
  | none => rfl
  | some page =>
    by_cases hp : page.permission.readable
    · simp only [hp, if_true, getAddressNso, getAddressNsoType]
      cases hf : all.find? fun i => e.InImage addr i with
      | none => rfl
      | some i =>
        obtain ⟨r, hr⟩ := (find?_inImage_eq_some hf).exists_ref
        simp only [Option.bind_some, hr, Nso.writeNso_eq]
        cases (e.objects r).locate (uintOfLong (addr - e.getNsoAddress i)) data.length with
        | error x => simp [Except.map]
        | ok p => rfl
    · simp only [hp, Bool.false_eq_true, if_false]

/-! ### Layout -/

/-- The two hold the same objects, laid out alike. -/
structure SameLayout (e e' : ExeFS) : Prop where
  nsos : e.nsos = e'.nsos
  objects : ∀ r, (e.objects r).layout = (e'.objects r).layout

theorem SameLayout.refl (e : ExeFS) : e.SameLayout e := ⟨rfl, fun _ => rfl⟩

theorem SameLayout.symm {e' : ExeFS} (h : e.SameLayout e') : e'.SameLayout e :=
  ⟨h.nsos.symm, fun r => (h.objects r).symm⟩

theorem SameLayout.trans {e' e'' : ExeFS} (h : e.SameLayout e') (h' : e'.SameLayout e'') :
    e.SameLayout e'' :=
  ⟨h.nsos.trans h'.nsos, fun r => (h.objects r).trans (h'.objects r)⟩

theorem sameLayout_overlay (e : ExeFS) (r : NsoRef) (t : NsoSegmentType) (off : ℕ) (data : Bytes) :
    (e.overlay r t off data).SameLayout e where
  nsos := rfl
  objects r' := by
    by_cases h : r' = r
    · subst h
      rw [objects_overlay_same, Nso.layout_overlay]
    · rw [objects_overlay_of_ne h]

namespace SameLayout

variable {e' : ExeFS} (h : e.SameLayout e')
include h

theorem slotSize (i : NsoTypeEnum) : e.slotSize i = e'.slotSize i := by
  simp only [ExeFS.slotSize, nsoAt, ← h.nsos]
  cases e.nsos i with
  | none => rfl
  | some r => simp only [Option.map_some, Nso.endAddress_congr (h.objects r)]

theorem getNsoAddress (i : NsoTypeEnum) : e.getNsoAddress i = e'.getNsoAddress i := by
  simp only [ExeFS.getNsoAddress, sizeBefore, funext h.slotSize]

theorem memoryMapFrom (is : List NsoTypeEnum) (addr : ℤ) :
    e.memoryMapFrom is addr = e'.memoryMapFrom is addr := by
  induction is generalizing addr with
  | nil => rfl
  | cons i is ih =>
    simp only [ExeFS.memoryMapFrom, nsoAt, ← h.nsos]
    cases e.nsos i with
    | none => exact ih addr
    | some r =>
      have hl := h.objects r
      simp only [Option.map_some, ih, modulePages, h.getNsoAddress, Nso.startAddress_congr hl,
        Nso.endAddress_congr hl, Nso.rodataSegment, Nso.rwdataSegment, Nso.address_congr hl]

theorem getMemoryMap : e.getMemoryMap = e'.getMemoryMap := h.memoryMapFrom all 0

theorem getAddressPage (addr : ℤ) : e.getAddressPage addr = e'.getAddressPage addr := by
  simp only [ExeFS.getAddressPage, h.getMemoryMap]

theorem inImage (addr : ℤ) (i : NsoTypeEnum) : e.InImage addr i ↔ e'.InImage addr i := by
  simp only [InImage, nsoAt, ← h.nsos]
  cases e.nsos i with
  | none => rfl
  | some r =>
    have hl := h.objects r
    simp only [Option.map_some, h.getNsoAddress, Nso.startAddress_congr hl,
      Nso.endAddress_congr hl]

theorem locate (addr : ℤ) (n : ℕ) : e.locate addr n = e'.locate addr n := by
  simp only [ExeFS.locate, h.getAddressPage, h.inImage, h.nsos, h.getNsoAddress,
    Nso.locate_congr (h.objects _)]

end SameLayout

end ExeFS
end Sp2Module
