import Sp2Module.ArmUtils
import Sp2Module.ExeFS

/-!
# Patch entries

An address of a patch script names a symbol of the custom module or an offset into a module of the
game; a module called `sdk` there is found in slot `subsdk0`. `slotOffset` is the slot and the
offset an address stands for. A patch resolves its address and its payload and then writes.
-/

namespace Sp2Module

inductive MemAddress where
  | symbol (symbol : String)
  | offset (nsoType : NsoTypeEnum) (offset : UInt32)
deriving DecidableEq, Repr

abbrev Symbols := List (String × UInt32)

namespace MemAddress

def getAddress (e : ExeFS) (symbols : Symbols) : MemAddress → Except Exception ℤ
  | symbol s =>
    match symbols.find? fun sym => sym.1 == s with
    | some sym => .ok (e.getNsoAddress .sdk + sym.2.toNat)
    | none => .error (.app (.patchConfig ("Could not find symbol : " ++ s)))
  | offset nsoType off =>
    let type := if nsoType = .sdk then .subsdk0 else nsoType
    .ok (e.getNsoAddress type + off.toNat)

/-- The slot and the offset an address is resolved to. -/
def slotOffset (symbols : Symbols) : MemAddress → Option (NsoTypeEnum × UInt32)
  | symbol s => (symbols.find? fun sym => sym.1 == s).map fun sym => (.sdk, sym.2)
  | offset nsoType off => some (if nsoType = .sdk then .subsdk0 else nsoType, off)

variable {e : ExeFS} {symbols : Symbols} {a : MemAddress}

theorem getAddress_of_slotOffset {T : NsoTypeEnum} {off : UInt32}
    (h : a.slotOffset symbols = some (T, off)) :
    a.getAddress e symbols = .ok (e.getNsoAddress T + off.toNat) := by
  cases a with
  | symbol s =>
    simp only [slotOffset] at h
    cases hs : symbols.find? fun sym => sym.1 == s with
    | none => simp [hs] at h
    | some sym =>
      simp only [hs, Option.map_some, Option.some.injEq, Prod.mk.injEq] at h
      obtain ⟨rfl, rfl⟩ := h
      simp only [getAddress, hs]
  | offset nsoType off' =>
    simp only [slotOffset, Option.some.injEq, Prod.mk.injEq] at h
    obtain ⟨rfl, rfl⟩ := h
    rfl

theorem getAddress_of_slotOffset_eq_none (h : a.slotOffset symbols = none) :
    ∃ x, a.getAddress e symbols = .error x := by
  cases a with
  | symbol s =>
    rw [slotOffset, Option.map_eq_none_iff] at h
    refine ⟨.app (.patchConfig ("Could not find symbol : " ++ s)), ?_⟩
    simp only [getAddress, h]
  | offset nsoType off => cases h

theorem getAddress_congr {e' : ExeFS} (h : e.SameLayout e') (symbols : Symbols) (a : MemAddress) :
    a.getAddress e symbols = a.getAddress e' symbols := by
  cases a <;> simp only [getAddress, h.getNsoAddress]

end MemAddress

/-- The payload of a patch, by its type. -/
inductive PatchData where
  | bl (target : MemAddress)
  | b (target : MemAddress)
  | data (bytes : Bytes)
  | ptr (target : MemAddress)
deriving DecidableEq, Repr

structure PatchEntry where
  address : MemAddress
  data : PatchData
deriving DecidableEq, Repr

namespace PatchData

/-- The bytes a patch at `patchAddr` writes. -/
def buffer (e : ExeFS) (symbols : Symbols) (patchAddr : ℤ) : PatchData → Except Exception Bytes
  | ptr target => (target.getAddress e symbols).map longBytes
  | bl target => do
    let hookAddr ← target.getAddress e symbols
    ArmUtils.armv8EncodeBl (uintOfLong (hookAddr - patchAddr))
  | b target => do
    let hookAddr ← target.getAddress e symbols
    ArmUtils.armv8EncodeB (uintOfLong (hookAddr - patchAddr))
  | data bytes => .ok bytes

/-- How many bytes a patch writes. -/
def length : PatchData → ℕ
  | bl _ => 4
  | b _ => 4
  | data bytes => bytes.length
  | ptr _ => 8

end PatchData

namespace PatchEntry

def apply (p : PatchEntry) (symbols : Symbols) : EStateM Exception ExeFS Unit := fun e =>
  match p.address.getAddress e symbols with
  | .error x => .error x e
  | .ok patchAddr =>
    match p.data.buffer e symbols patchAddr with
    | .error x => .error x e
    | .ok buffer => ExeFS.writeExeFs patchAddr buffer e

end PatchEntry

/-- The loop of `ApplyPatches`. -/
def applyPatches (symbols : Symbols) : List PatchEntry → EStateM Exception ExeFS Unit
  | [] => pure ()
  | p :: ps => do
    p.apply symbols
    applyPatches symbols ps

/-! ### What a patch does -/

namespace PatchData

variable {e : ExeFS} {symbols : Symbols} {patchAddr : ℤ} {d : PatchData} {buffer : Bytes}

theorem length_encodeBranch {id label : UInt32} {word : Bytes}
    (h : ArmUtils.encodeBranch id label = .ok word) : word.length = 4 := by
  unfold ArmUtils.encodeBranch at h
  split_ifs at h
  cases h
  exact length_uintBytes _

theorem length_buffer (h : d.buffer e symbols patchAddr = .ok buffer) :
    buffer.length = d.length := by
  cases d with
  | data bytes => cases h; rfl
  | ptr target =>
    simp only [PatchData.buffer] at h
    cases ht : target.getAddress e symbols with
    | error x => rw [ht] at h; cases h
    | ok a => rw [ht] at h; cases h; exact length_longBytes _
  | bl target =>
    simp only [PatchData.buffer] at h
    cases ht : target.getAddress e symbols with
    | error x => rw [ht] at h; cases h
    | ok a => rw [ht] at h; exact length_encodeBranch h
  | b target =>
    simp only [PatchData.buffer] at h
    cases ht : target.getAddress e symbols with
    | error x => rw [ht] at h; cases h
    | ok a => rw [ht] at h; exact length_encodeBranch h

theorem buffer_congr {e' : ExeFS} (h : e.SameLayout e') (symbols : Symbols) (patchAddr : ℤ)
    (d : PatchData) : d.buffer e symbols patchAddr = d.buffer e' symbols patchAddr := by
  cases d <;> simp only [PatchData.buffer, MemAddress.getAddress_congr h]

end PatchData

/-- A write that has been resolved: an object, a segment of it, an offset and the bytes. -/
structure ResolvedWrite where
  object : NsoRef
  segment : NsoSegmentType
  offset : ℕ
  bytes : Bytes
deriving DecidableEq

/-- What a resolved write does; a skipped write does nothing. -/
def ExeFS.perform (e : ExeFS) : Option ResolvedWrite → ExeFS
  | none => e
  | some w => e.overlay w.object w.segment w.offset w.bytes

theorem ExeFS.sameLayout_perform (e : ExeFS) (w : Option ResolvedWrite) :
    (e.perform w).SameLayout e := by
  cases w with
  | none => exact SameLayout.refl e
  | some w => exact e.sameLayout_overlay _ _ _ _

namespace PatchEntry

variable {e e' : ExeFS} {symbols : Symbols}

/-- The write an entry is resolved to, `none` where it is skipped. -/
def resolve (p : PatchEntry) (e : ExeFS) (symbols : Symbols) :
    Except Exception (Option ResolvedWrite) := do
  let patchAddr ← p.address.getAddress e symbols
  let buffer ← p.data.buffer e symbols patchAddr
  let place ← e.locate patchAddr buffer.length
  return place.map fun (r, t, off) => ⟨r, t, off, buffer⟩

/-- An entry is decided by its resolution, and leaves the ExeFS as it was where that fails. -/
theorem apply_eq (p : PatchEntry) (symbols : Symbols) (e : ExeFS) :
    p.apply symbols e = match p.resolve e symbols with
      | .error x => .error x e
      | .ok w => .ok () (e.perform w) := by
  unfold apply resolve
  cases p.address.getAddress e symbols with
  | error x => rfl
  | ok patchAddr =>
    simp only [bind, Except.bind]
    cases p.data.buffer e symbols patchAddr with
    | error x => rfl
    | ok buffer =>
      simp only [ExeFS.writeExeFs_eq]
      cases e.locate patchAddr buffer.length with
      | error x => rfl
      | ok place => cases place <;> rfl

theorem resolve_congr (h : e.SameLayout e') (p : PatchEntry) (symbols : Symbols) :
    p.resolve e symbols = p.resolve e' symbols := by
  simp only [resolve, MemAddress.getAddress_congr h, PatchData.buffer_congr h, h.locate]

/-- Whatever an entry does, the layout of the modules stays. -/
theorem sameLayout_apply {p : PatchEntry} (h : p.apply symbols e = .ok () e') :
    e'.SameLayout e := by
  rw [apply_eq] at h
  cases hw : p.resolve e symbols with
  | error x => rw [hw] at h; cases h
  | ok w => rw [hw] at h; cases h; exact e.sameLayout_perform w

theorem apply_eq_error {x : Exception} {p : PatchEntry} (h : p.apply symbols e = .error x e') :
    e' = e := by
  rw [apply_eq] at h
  cases hw : p.resolve e symbols with
  | error x => rw [hw] at h; cases h; rfl
  | ok w => rw [hw] at h; cases h

end PatchEntry

end Sp2Module
