import Sp2Module.ExeFSPlacement
import Sp2Module.PatchConfig

/-!
# Branch patches

The displacement of a branch patch is truncated to 32 bits before its range is checked. The word
that comes out reaches the target unless the truncation made a far target look near, and no
backward branch is encoded, although A64 has them.
-/

namespace Sp2Module

def PatchData.branch : Branch → MemAddress → PatchData
  | .b, target => .b target
  | .bl, target => .bl target

/-- Whenever the branch at `a` is encoded, its word is the branch `k`, and executed at the patch
address it goes to the address of the target. -/
def BranchReaches (e : ExeFS) (symbols : Symbols) (k : Branch) (a target : MemAddress) : Prop :=
  ∀ patchAddr hookAddr buffer, a.getAddress e symbols = .ok patchAddr →
    target.getAddress e symbols = .ok hookAddr →
    (PatchData.branch k target).buffer e symbols patchAddr = .ok buffer →
    A64.opcode (uintOfBytes buffer) = k.opcode ∧
      A64.branchTarget patchAddr (uintOfBytes buffer) = hookAddr

/-- The displacement fits an unsigned 32-bit integer, or the encoder refuses what is left of it. -/
def TruncationSafe (displacement : ℤ) : Prop :=
  (0 ≤ displacement ∧ displacement < 2 ^ 32) ∨ 0x7FFFFFC < displacement % 2 ^ 32 ∨
    displacement % 4 ≠ 0

variable {e : ExeFS} {symbols : Symbols} {k : Branch} {a target : MemAddress}
  {patchAddr hookAddr : ℤ}

theorem encodable_uintOfLong (x : ℤ) :
    ArmUtils.Encodable (uintOfLong x) ↔ x % 2 ^ 32 ≤ 0x7FFFFFC ∧ x % 4 = 0 := by
  have hcast := toNat_uintOfLong x
  unfold ArmUtils.Encodable
  omega

theorem buffer_branch (h : target.getAddress e symbols = .ok hookAddr) :
    (PatchData.branch k target).buffer e symbols patchAddr =
      ArmUtils.encodeBranch (ArmUtils.branchId k) (uintOfLong (hookAddr - patchAddr)) := by
  cases k <;> simp only [PatchData.branch, PatchData.buffer, h] <;> rfl

/-- A word that is encoded branches by the truncated displacement. -/
theorem branchTarget_encodeBranch (patchAddr : ℤ) {label : UInt32} {buffer : Bytes}
    (h : ArmUtils.encodeBranch (ArmUtils.branchId k) label = .ok buffer) :
    A64.opcode (uintOfBytes buffer) = k.opcode ∧
      A64.branchTarget patchAddr (uintOfBytes buffer) = patchAddr + label.toNat := by
  by_cases henc : ArmUtils.Encodable label
  · obtain ⟨word, hword, hval⟩ := ArmUtils.encodeBranch_of_encodable (k := k) henc
    rw [hword] at h
    cases h
    have hle := henc.1
    have hmod := henc.2
    have himm : A64.imm26 word = label.toNat / 4 := by rw [A64.imm26, hval]; omega
    have hsign : ((label.toNat / 4 : ℕ) : ℤ).bmod (2 ^ 26) = (label.toNat / 4 : ℕ) := by
      rw [Int.bmod_eq_of_le] <;> omega
    rw [uintOfBytes_uintBytes]
    constructor
    · rw [A64.opcode, hval]
      omega
    · rw [A64.branchTarget, himm, hsign]
      omega
  · obtain ⟨x, hx⟩ := ArmUtils.encodeBranch_of_not_encodable (k := k) henc
    rw [hx] at h
    cases h

/-- A branch patch reaches its target exactly when its displacement survives the truncation. -/
theorem branchReaches_iff (e : ExeFS) (symbols : Symbols) (k : Branch) (a target : MemAddress) :
    BranchReaches e symbols k a target ↔
      ∀ patchAddr hookAddr, a.getAddress e symbols = .ok patchAddr →
        target.getAddress e symbols = .ok hookAddr → TruncationSafe (hookAddr - patchAddr) := by
  constructor
  · intro h patchAddr hookAddr hP hQ
    by_contra hunsafe
    unfold TruncationSafe at hunsafe
    have henc : ArmUtils.Encodable (uintOfLong (hookAddr - patchAddr)) := by
      rw [encodable_uintOfLong]
      omega
    obtain ⟨word, hword, -⟩ := ArmUtils.encodeBranch_of_encodable (k := k) henc
    have hreach := (h patchAddr hookAddr _ hP hQ (by rw [buffer_branch hQ, hword])).2
    rw [(branchTarget_encodeBranch patchAddr hword).2] at hreach
    have hcast := toNat_uintOfLong (hookAddr - patchAddr)
    omega
  · intro h patchAddr hookAddr buffer hP hQ hbuf
    rw [buffer_branch hQ] at hbuf
    obtain ⟨hop, htarget⟩ := branchTarget_encodeBranch patchAddr hbuf
    refine ⟨hop, htarget.trans ?_⟩
    have hcast := toNat_uintOfLong (hookAddr - patchAddr)
    rcases h patchAddr hookAddr hP hQ with hfit | hrefused
    · omega
    · have hnot : ¬ ArmUtils.Encodable (uintOfLong (hookAddr - patchAddr)) := by
        rw [encodable_uintOfLong]
        omega
      obtain ⟨x, hx⟩ := ArmUtils.encodeBranch_of_not_encodable (k := k) hnot
      rw [hx] at hbuf
      cases hbuf

/-- A symbol at `2 ^ 32` when the custom module starts at `0x1000`. -/
def farSymbols : Symbols := [("f", 0xFFFFF000)]

def farBranch : PatchEntry := ⟨.offset .main 0, .branch .bl (.symbol "f")⟩

/-- The entry that branches from address 0 to the far symbol applies without an exception, and the
word it writes branches to itself. -/
theorem not_branchReaches_farSymbols :
    (∃ e', farBranch.apply farSymbols (ExeFS.ofMain (textNso [0, 0, 0, 0])) = .ok () e' ∧
      ((e'.objects 0).segments .text).rawData = [0x00, 0x00, 0x00, 0x94]) ∧
      ¬ BranchReaches (ExeFS.ofMain (textNso [0, 0, 0, 0])) farSymbols .bl (.offset .main 0)
        (.symbol "f") := by
  constructor
  · have hresolve : farBranch.resolve (ExeFS.ofMain (textNso [0, 0, 0, 0])) farSymbols =
        .ok (some ⟨0, .text, 0, [0x00, 0x00, 0x00, 0x94]⟩) := by decide
    refine ⟨(ExeFS.ofMain (textNso [0, 0, 0, 0])).overlay 0 .text 0 [0x00, 0x00, 0x00, 0x94],
      ?_, ?_⟩
    · rw [PatchEntry.apply_eq, hresolve]
      rfl
    · rw [ExeFS.objects_overlay_same]
      decide
  · intro h
    have hreach := h 0 0x100000000 [0x00, 0x00, 0x00, 0x94] (by decide) (by decide) (by decide)
    revert hreach
    decide

/-! ### The range of an encodable branch -/

/-- The branch `k` from `patchAddr` to `hookAddr` is encoded, as the word whose sign-extended
immediate is the displacement in words. -/
def BranchEncoded (e : ExeFS) (symbols : Symbols) (k : Branch) (target : MemAddress)
    (patchAddr hookAddr : ℤ) : Prop :=
  ∃ word, (PatchData.branch k target).buffer e symbols patchAddr = .ok (uintBytes word) ∧
    A64.opcode word = k.opcode ∧
    (A64.imm26 word : ℤ).bmod (2 ^ 26) = (hookAddr - patchAddr) / 4

theorem branchEncoded_of_le (h : target.getAddress e symbols = .ok hookAddr)
    (hmod : (hookAddr - patchAddr) % 4 = 0) (hhigh : hookAddr - patchAddr ≤ 2 ^ 27 - 4)
    (hle : patchAddr ≤ hookAddr) : BranchEncoded e symbols k target patchAddr hookAddr := by
  have hcast := toNat_uintOfLong_of_lt (x := hookAddr - patchAddr) (by omega) (by omega)
  have henc : ArmUtils.Encodable (uintOfLong (hookAddr - patchAddr)) := by
    rw [encodable_uintOfLong]
    omega
  obtain ⟨word, hword, hval⟩ := ArmUtils.encodeBranch_of_encodable (k := k) henc
  have hbuf : (PatchData.branch k target).buffer e symbols patchAddr = .ok (uintBytes word) := by
    rw [buffer_branch h, hword]
  obtain ⟨hop, htarget⟩ := branchTarget_encodeBranch patchAddr hword
  rw [uintOfBytes_uintBytes] at hop htarget
  refine ⟨word, hbuf, hop, ?_⟩
  rw [A64.branchTarget] at htarget
  omega

/-- A backward displacement is a label above the limit of the encoder. -/
theorem buffer_of_lt (h : target.getAddress e symbols = .ok hookAddr)
    (hlow : -2 ^ 27 ≤ hookAddr - patchAddr) (hlt : hookAddr < patchAddr) :
    (PatchData.branch k target).buffer e symbols patchAddr =
      .error (.app (.armv8 "label cannot be higher than 0x7FFFFFC")) := by
  have hcast := toNat_uintOfLong (hookAddr - patchAddr)
  have hgt : (0x7FFFFFC : UInt32) < uintOfLong (hookAddr - patchAddr) := by
    rw [UInt32.lt_iff_toNat_lt]
    change 0x7FFFFFC < _
    omega
  rw [buffer_branch h, ArmUtils.encodeBranch, if_pos hgt]

/-- Of the displacements an A64 branch can express the forward ones are encoded. -/
theorem branchEncoded_iff (h : target.getAddress e symbols = .ok hookAddr)
    (hmod : (hookAddr - patchAddr) % 4 = 0) (hlow : -2 ^ 27 ≤ hookAddr - patchAddr)
    (hhigh : hookAddr - patchAddr ≤ 2 ^ 27 - 4) :
    BranchEncoded e symbols k target patchAddr hookAddr ↔ patchAddr ≤ hookAddr := by
  constructor
  · rintro ⟨word, hbuf, -⟩
    by_contra hlt
    rw [buffer_of_lt h hlow (by omega)] at hbuf
    cases hbuf
  · exact branchEncoded_of_le h hmod hhigh

/-- Two words of main. -/
def twoWords : ExeFS := ExeFS.ofMain (textNso [0, 0, 0, 0, 0, 0, 0, 0])

/-- A branch from the first word of main to the second. -/
theorem branchEncoded_forward : BranchEncoded twoWords [] .b (.offset .main 4) 0 4 :=
  (branchEncoded_iff (by decide) (by decide) (by decide) (by decide)).mpr (by decide)

/-- The branch from the second word back to the first has the immediate `-1`, and the entry that
asks for it throws. -/
theorem not_branchEncoded_backward :
    PatchEntry.apply ⟨.offset .main 4, .b (.offset .main 0)⟩ [] twoWords =
      .error (.app (.armv8 "label cannot be higher than 0x7FFFFFC")) twoWords ∧
    ¬ BranchEncoded twoWords [] .b (.offset .main 0) 4 0 := by
  have hP : (MemAddress.offset .main 4).getAddress twoWords [] = .ok 4 := by decide
  have hQ : (MemAddress.offset .main 0).getAddress twoWords [] = .ok 0 := by decide
  have hbuf : (PatchData.b (.offset .main 0)).buffer twoWords [] 4 = _ :=
    buffer_of_lt (k := .b) hQ (by decide) (by decide)
  constructor
  · simp only [PatchEntry.apply, hP, hbuf]
  · rintro ⟨word, hword, -⟩
    rw [PatchData.branch, hbuf] at hword
    cases hword

end Sp2Module
