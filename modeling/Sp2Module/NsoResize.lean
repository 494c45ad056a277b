import Sp2Module.NsoImage

/-!
# Resizing one segment

A resize assigns the size and the buffer of its segment and leaves the hash as it is. Its range
grows over whatever lies behind it: the accesses to the other segments are the same as before as
long as the ranges are disjoint.
-/

namespace Sp2Module

/-- The addresses of a segment, also those from `2 ^ 32` on. -/
def NsoSegment.Spans (s : NsoSegment) (k : ℕ) : Prop :=
  s.address.toNat ≤ k ∧ k < s.address.toNat + s.decompressedSize.toNat

theorem NsoSegment.Contains.spans {s : NsoSegment} {addr : UInt32} (h : s.Contains addr) :
    s.Spans addr.toNat := by
  obtain ⟨hle, hlt, -⟩ := (s.contains_iff addr).mp h
  exact ⟨hle, hlt⟩

/-- A buffer of `newSize` bytes that starts with those of `raw`. -/
def resizedData (raw : Bytes) (newSize : ℕ) : Bytes :=
  raw.take newSize ++ List.replicate (newSize - raw.length) 0

theorem overwrite_replicate (raw : Bytes) (newSize : ℕ) :
    overwrite (List.replicate newSize 0) 0 raw = resizedData raw newSize := by
  apply List.ext_getElem?
  intro i
  rw [getElem?_overwrite, resizedData, List.getElem?_replicate, List.getElem?_append,
    List.getElem?_take, List.getElem?_replicate, List.length_take]
  by_cases hnew : i < newSize
  · by_cases hraw : i < raw.length
    · rw [if_pos hnew, if_pos (by omega), List.getElem?_eq_getElem hraw]
      simp [hnew, hraw]
    · rw [if_pos hnew, if_neg (by omega), if_pos (by omega)]
      simp [List.getElem?_eq_none (Nat.not_lt.mp hraw)]
  · rw [if_neg hnew, if_neg (by omega), if_neg (by omega)]
    rfl

theorem resizedData_self (raw : Bytes) : resizedData raw raw.length = raw := by
  rw [resizedData, List.take_length, Nat.sub_self, List.replicate_zero, List.append_nil]

namespace Nso

open NsoSegmentType

variable {nso nso' : Nso} {t u : NsoSegmentType} {newSize : UInt32}

/-- No two segments have an address in common. -/
def PairwiseDisjoint (nso : Nso) : Prop :=
  ∀ t u k, (nso.segments t).Spans k → (nso.segments u).Spans k → t = u

theorem PairwiseDisjoint.getAddressSegment {addr : UInt32} (h : nso.PairwiseDisjoint)
    (hc : (nso.segments t).Contains addr) : nso.getAddressSegment addr = some t := by
  cases hseg : nso.getAddressSegment addr with
  | none => exact absurd hc (getAddressSegment_eq_none.mp hseg t)
  | some u => rw [h u t _ (getAddressSegment_eq_some hseg).spans hc.spans]

/-! ### What a resize does -/

/-- A segment of the new size with the new buffer. -/
def resizedSegment (nso : Nso) (t : NsoSegmentType) (newSize : UInt32) : NsoSegment :=
  { nso.segments t with
    decompressedSize := newSize
    rawData := resizedData (nso.segments t).rawData newSize.toNat }

theorem resizeSegment_of_le (h : newSize.toNat ≤ maxArrayLength) :
    resizeSegment t newSize nso = .ok () (nso.setSegment t (nso.resizedSegment t newSize)) := by
  unfold resizeSegment
  rw [if_neg (by omega)]
  dsimp only
  rw [overwrite_replicate]
  rfl

theorem resizeSegment_of_lt (h : maxArrayLength < newSize.toNat) :
    resizeSegment t newSize nso = .error (newArrayExn newSize.toNat)
      (nso.setSegment t { nso.segments t with decompressedSize := newSize }) := by
  unfold resizeSegment
  rw [if_pos h]

theorem setSegment_overlay_comm (h : u ≠ t) (nso : Nso) (s : NsoSegment) (off : ℕ) (data : Bytes) :
    (nso.setSegment t s).overlay u off data = (nso.overlay u off data).setSegment t s := by
  unfold overlay
  rw [segments_setSegment_of_ne h]
  unfold setSegment
  rw [Function.update_comm h.symm]

/-! ### The other segments -/

/-- What is promised of a resize of segment `t` that returns: the first bytes are kept and the rest
is zero, the hash is that of the buffer, the segments are disjoint, and accesses to the other
segments are as before. -/
structure ResizedAlone (nso nso' : Nso) (t : NsoSegmentType) (newSize : UInt32) : Prop where
  rawData : (nso'.segments t).rawData =
    (nso.segments t).rawData.take
        (min (nso.segments t).decompressedSize.toNat newSize.toNat) ++
      List.replicate (newSize.toNat - (nso.segments t).decompressedSize.toNat) 0
  sha256 : (nso'.segments t).sha256 = some (computeHash (nso'.segments t).rawData)
  disjoint : nso'.PairwiseDisjoint
  readNso : ∀ u ≠ t, ∀ addr size, (nso.segments u).Contains addr →
    nso'.readNso addr size = nso.readNso addr size
  writeNso : ∀ u ≠ t, ∀ addr data, (nso.segments u).Contains addr →
    match Nso.writeNso addr data nso with
    | .ok _ nso₁ =>
      Nso.writeNso addr data nso' = .ok () (nso₁.setSegment t (nso'.segments t))
    | .error x _ => Nso.writeNso addr data nso' = .error x nso'

/-- A resize throws and changes nothing, or resizes the segment and leaves the others alone. -/
def ResizesAlone (nso : Nso) (t : NsoSegmentType) (newSize : UInt32) : Prop :=
  match resizeSegment t newSize nso with
  | .error _ nso' => nso' = nso
  | .ok _ nso' => nso.ResizedAlone nso' t newSize

/-- The range of segment `t`, were it of the new size, meets no other segment. -/
def RoomFor (nso : Nso) (t : NsoSegmentType) (newSize : UInt32) : Prop :=
  ∀ u ≠ t, ∀ k, (nso.segments t).address.toNat ≤ k →
    k < (nso.segments t).address.toNat + newSize.toNat → ¬ (nso.segments u).Spans k

section Access

variable {s : NsoSegment} {addr : UInt32} (hd : nso.PairwiseDisjoint)
  (hd' : (nso.setSegment t s).PairwiseDisjoint) (hu : u ≠ t) (hc : (nso.segments u).Contains addr)
include hd hd' hu hc

/-- Where the ranges are disjoint before and after, a lookup in another segment is the same. -/
theorem getAddressSegment_setSegment :
    nso.getAddressSegment addr = some u ∧ (nso.setSegment t s).getAddressSegment addr = some u := by
  refine ⟨hd.getAddressSegment hc, hd'.getAddressSegment ?_⟩
  rwa [segments_setSegment_of_ne hu]

theorem readNso_setSegment (size : ℤ) :
    (nso.setSegment t s).readNso addr size = nso.readNso addr size := by
  obtain ⟨hseg, hseg'⟩ := getAddressSegment_setSegment hd hd' hu hc
  unfold Nso.readNso
  simp only [hseg, hseg', segments_setSegment_of_ne hu]

theorem locate_setSegment (n : ℕ) : (nso.setSegment t s).locate addr n = nso.locate addr n := by
  obtain ⟨hseg, hseg'⟩ := getAddressSegment_setSegment hd hd' hu hc
  unfold locate
  simp only [hseg, hseg', segments_setSegment_of_ne hu]

theorem writeNso_setSegment (data : Bytes) :
    match writeNso addr data nso with
    | .ok _ nso₁ => writeNso addr data (nso.setSegment t s) = .ok () (nso₁.setSegment t s)
    | .error x _ => writeNso addr data (nso.setSegment t s) = .error x (nso.setSegment t s) := by
  rw [writeNso_eq, writeNso_eq, locate_setSegment hd hd' hu hc]
  cases hloc : nso.locate addr data.length with
  | error x => rfl
  | ok place =>
    obtain ⟨v, off⟩ := place
    have hv : nso.getAddressSegment addr = some v := (locate_eq_ok hloc).1
    rw [hd.getAddressSegment hc] at hv
    cases hv
    dsimp only
    rw [setSegment_overlay_comm hu]

end Access

theorem pairwiseDisjoint_resized_iff (hd : nso.PairwiseDisjoint) :
    (nso.setSegment t (nso.resizedSegment t newSize)).PairwiseDisjoint ↔ nso.RoomFor t newSize := by
  constructor
  · intro h u hu k hle hlt hspan
    refine hu (h u t k ?_ ?_)
    · rwa [segments_setSegment_of_ne hu]
    · rw [segments_setSegment_same]
      exact ⟨hle, hlt⟩
  · intro h v w k hv hw
    rw [segments_setSegment] at hv hw
    split_ifs at hv hw with htv htw htw
    · rw [htv, htw]
    · exact absurd hw (h w htw k hv.1 hv.2)
    · exact absurd hv (h v htv k hw.1 hw.2)
    · exact hd v w k hv hw

/-- A resize with room for the new range that keeps the hash right leaves the others alone. -/
theorem resizedAlone_of_roomFor (hs : nso.Sized) (hd : nso.PairwiseDisjoint)
    (hsha : (nso.segments t).sha256 =
      some (computeHash (resizedData (nso.segments t).rawData newSize.toNat)))
    (hroom : nso.RoomFor t newSize) :
    nso.ResizedAlone (nso.setSegment t (nso.resizedSegment t newSize)) t newSize := by
  have hd' := (pairwiseDisjoint_resized_iff hd).mpr hroom
  constructor
  · have htake : (nso.segments t).rawData.take newSize.toNat = (nso.segments t).rawData.take
        (min (nso.segments t).rawData.length newSize.toNat) := by
      rw [List.take_eq_take_iff]
      omega
    rw [segments_setSegment_same, resizedSegment, resizedData, ← hs t, ← htake]
  · rw [segments_setSegment_same]
    exact hsha
  · exact hd'
  · exact fun u hu addr size hc => readNso_setSegment hd hd' hu hc size
  · intro u hu addr data hc
    rw [segments_setSegment_same]
    exact writeNso_setSegment hd hd' hu hc data

/-- A resize does what is promised exactly when the size stays, or the buffer can be allocated, its
hash happens to be the one of the old buffer, and the range meets no other segment. -/
theorem resizesAlone_iff (hs : nso.Sized) (hd : nso.PairwiseDisjoint)
    (hsha : ∀ t, (nso.segments t).sha256 = some (computeHash (nso.segments t).rawData))
    (t : NsoSegmentType) (newSize : UInt32) :
    nso.ResizesAlone t newSize ↔ newSize = (nso.segments t).decompressedSize ∨
      newSize.toNat ≤ maxArrayLength ∧
        computeHash (resizedData (nso.segments t).rawData newSize.toNat) =
          computeHash (nso.segments t).rawData ∧
        nso.RoomFor t newSize := by
  unfold ResizesAlone
  by_cases hmax : newSize.toNat ≤ maxArrayLength
  · rw [resizeSegment_of_le hmax]
    constructor
    · intro h
      refine Or.inr ⟨hmax, ?_, (pairwiseDisjoint_resized_iff hd).mp h.disjoint⟩
      have hhash := h.sha256
      rw [segments_setSegment_same] at hhash
      exact (Option.some.inj ((hsha t).symm.trans hhash)).symm
    · rintro (heq | ⟨-, hhash, hroom⟩)
      · -- a resize to the same size builds the same buffer
        have hdata : resizedData (nso.segments t).rawData newSize.toNat =
            (nso.segments t).rawData := by
          rw [heq, ← hs t, resizedData_self]
        refine resizedAlone_of_roomFor hs hd (by rw [hdata]; exact hsha t) ?_
        intro u hu k hle hlt hspan
        exact hu (hd u t k hspan ⟨hle, heq ▸ hlt⟩)
      · exact resizedAlone_of_roomFor hs hd (by rw [hhash]; exact hsha t) hroom
  · rw [resizeSegment_of_lt (by omega)]
    constructor
    · intro h
      have hsize := congrArg (fun n : Nso => (n.segments t).decompressedSize) h
      dsimp only at hsize
      rw [segments_setSegment_same] at hsize
      exact Or.inl hsize
    · rintro (rfl | ⟨hle, -⟩)
      · exact setSegment_self nso t
      · exact absurd hle hmax

/-- Three segments a page apart, with their hashes. -/
def hashedSegments : Nso where
  flag := 0
  buildId := []
  segments t :=
    { threeSegments.segments t with
      sha256 := some (computeHash (threeSegments.segments t).rawData) }
  dynamicStringTable := ⟨0, 0⟩
  dynamicSymbolTable := ⟨0, 0⟩
  modSection := none

theorem pairwiseDisjoint_hashedSegments : hashedSegments.PairwiseDisjoint := by
  intro t u k ht hu
  have hwrap : ∀ t, (hashedSegments.segments t).address.toNat +
      (hashedSegments.segments t).decompressedSize.toNat < 2 ^ 32 := isStore_threeSegments.noWrap
  have hk : (UInt32.ofNat k).toNat = k :=
    UInt32.toNat_ofNat_of_lt' (ht.2.trans (hwrap t))
  refine isStore_threeSegments.disjoint t u (UInt32.ofNat k) ?_ ?_
  · rw [NsoSegment.contains_iff, hk]
    exact ⟨ht.1, ht.2, hwrap t⟩
  · rw [NsoSegment.contains_iff, hk]
    exact ⟨hu.1, hu.2, hwrap u⟩

/-- There is room for a third byte, but with it the hash is another one. -/
theorem resizesAlone_hashedSegments : hashedSegments.ResizesAlone text 2 ∧
    hashedSegments.RoomFor text 3 ∧ ¬ hashedSegments.ResizesAlone text 3 := by
  have hs : hashedSegments.Sized := isStore_threeSegments.sized
  have hiff := resizesAlone_iff hs pairwiseDisjoint_hashedSegments (fun _ => rfl) text
  have hsize : (3 : UInt32) ≠ (hashedSegments.segments text).decompressedSize := by decide
  have hhash : computeHash (resizedData (hashedSegments.segments text).rawData
      (3 : UInt32).toNat) ≠ computeHash (hashedSegments.segments text).rawData := by decide +kernel
  refine ⟨(hiff 2).mpr (Or.inl rfl), fun u hu k hlo hhi hin => ?_, fun h => ?_⟩
  · have haddr : ∀ u, u ≠ text → 0x1000 ≤ (hashedSegments.segments u).address.toNat := by
      intro u hu
      cases u <;> first | exact absurd rfl hu | decide
    have htext : (hashedSegments.segments text).address.toNat + (3 : UInt32).toNat = 3 := by decide
    have hle := haddr u hu
    have hge := hin.1
    omega
  · rcases (hiff 3).mp h with heq | ⟨-, heq, -⟩
    · exact hsize heq
    · exact hhash heq

/-- A smaller text keeps the old hash, a text of more than a page hides the first byte of rodata,
and a size that cannot be allocated is declared all the same. -/
theorem not_resizesAlone_hashedSegments : ¬ hashedSegments.ResizesAlone text 1 ∧
    ¬ hashedSegments.ResizesAlone text 0x1001 ∧ ¬ hashedSegments.ResizesAlone text 0xFFFFFFFF := by
  unfold ResizesAlone
  refine ⟨?_, ?_, ?_⟩
  · rw [resizeSegment_of_le (by decide)]
    intro h
    have hsha := h.sha256
    revert hsha
    decide +kernel
  · rw [resizeSegment_of_le (by decide)]
    intro h
    have hroom := (pairwiseDisjoint_resized_iff pairwiseDisjoint_hashedSegments).mp h.disjoint
    exact hroom rodata (by decide) 0x1000 (by decide) (by decide) ⟨by decide, by decide⟩
  · rw [resizeSegment_of_lt (by decide)]
    intro h
    have hsize := congrArg (fun n : Nso => (n.segments text).decompressedSize) h
    revert hsize
    decide

end Nso
end Sp2Module
