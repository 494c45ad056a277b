import Sp2Module.Nso

/-!
# Laws of image reads and writes

An NSO whose buffers have their declared sizes, whose segments share no address and end below
`2 ^ 32` is a store. A write succeeds where one segment holds its range, is seen by every read
that covers a part of the range, and changes nothing else; a write that fails changes nothing.
-/

namespace Sp2Module.Nso

open NsoSegmentType

/-- The range of `n` bytes at `addr` begins in segment `t` and does not run beyond its end. -/
def InSegment (nso : Nso) (t : NsoSegmentType) (addr : UInt32) (n : ℕ) : Prop :=
  (nso.segments t).Contains addr ∧
    addr.toNat + n ≤ (nso.segments t).address.toNat + (nso.segments t).decompressedSize.toNat

/-- Buffers of the declared sizes, disjoint segments, and no wrap of an end address. -/
structure IsStore (nso : Nso) : Prop where
  sized : nso.Sized
  disjoint : ∀ t u addr, (nso.segments t).Contains addr → (nso.segments u).Contains addr → t = u
  noWrap : ∀ t, (nso.segments t).address.toNat + (nso.segments t).decompressedSize.toNat < 2 ^ 32

variable {nso : Nso} {t : NsoSegmentType} {addr : UInt32} {off n : ℕ} {data : Bytes}

/-- In a store the first segment over an address is the only one. -/
theorem IsStore.getAddressSegment (h : nso.IsStore) (hc : (nso.segments t).Contains addr) :
    nso.getAddressSegment addr = some t := by
  cases hseg : nso.getAddressSegment addr with
  | none => exact absurd hc (getAddressSegment_eq_none.mp hseg t)
  | some u => rw [h.disjoint u t addr (getAddressSegment_eq_some hseg) hc]

theorem IsStore.locate_of_inSegment (h : nso.IsStore) (hin : nso.InSegment t addr n) :
    nso.locate addr n = .ok (t, addr.toNat - (nso.segments t).address.toNat) :=
  locate_of_getAddressSegment (h.getAddressSegment hin.1) hin.2 (h.sized t)

theorem inSegment_of_locate (h : nso.locate addr n = .ok (t, off)) : nso.InSegment t addr n := by
  obtain ⟨-, hc, hoff, hend, -⟩ := locate_eq_ok h
  exact ⟨hc, by omega⟩

/-- Where the buffers have their sizes only the two checks of the source refuse a write. -/
theorem locate_eq_error {x : Exception} (hs : nso.Sized) (h : nso.locate addr n = .error x) :
    ∃ message, x = .app (.nso message) := by
  unfold locate at h
  cases hseg : nso.getAddressSegment addr with
  | none =>
    rw [hseg] at h
    cases h
    exact ⟨_, rfl⟩
  | some t =>
    have hc := getAddressSegment_eq_some hseg
    have hle := ((nso.segments t).contains_iff addr).mp hc
    have hlen := hs t
    simp only [hseg, NsoSegment.toNat_sub_address hc, hc.toNat_endAddress] at h
    split_ifs at h with hend hfit hpos
    · cases h
      exact ⟨_, rfl⟩
    all_goals omega

theorem writeNso_eq_ok {nso' : Nso} (h : writeNso addr data nso = .ok () nso') :
    ∃ t off, nso.locate addr data.length = .ok (t, off) ∧ nso' = nso.overlay t off data := by
  rw [writeNso_eq] at h
  cases hloc : nso.locate addr data.length with
  | error x => rw [hloc] at h; cases h
  | ok place =>
    rw [hloc] at h
    cases h
    exact ⟨_, _, rfl, rfl⟩

theorem writeNso_of_locate (h : nso.locate addr data.length = .ok (t, off)) :
    writeNso addr data nso = .ok () (nso.overlay t off data) := by
  rw [writeNso_eq, h]

/-- A write fails in the way its lookup fails, and leaves the image as it was. -/
theorem writeNso_eq_error {nso' : Nso} {x : Exception}
    (h : writeNso addr data nso = .error x nso') :
    nso.locate addr data.length = .error x ∧ nso' = nso := by
  rw [writeNso_eq] at h
  cases hloc : nso.locate addr data.length with
  | error y =>
    rw [hloc] at h
    cases h
    exact ⟨rfl, rfl⟩
  | ok place => rw [hloc] at h; cases h

theorem overlay_eq (nso : Nso) (t : NsoSegmentType) (off : ℕ) (data : Bytes) :
    nso.overlay t off data = { nso with segments := (nso.overlay t off data).segments } := rfl

/-- A read after a write returns the old bytes, with those in the range of the write replaced. -/
theorem IsStore.readNso_overlay (h : nso.IsStore) {b : UInt32} {old : Bytes}
    (hloc : nso.locate addr data.length = .ok (t, off)) (hread : nso.readNso b n = .ok old) :
    (nso.overlay t off data).readNso b n =
      .ok (replaceRange old b.toNat addr.toNat data) := by
  have hl := nso.layout_overlay t off data
  have hin := inSegment_of_locate hloc
  obtain ⟨-, -, hoff, -, -⟩ := locate_eq_ok hloc
  obtain ⟨u, hseg, hend, rfl⟩ := readNso_eq_ok hread
  have hcu := getAddressSegment_eq_some hseg
  have hle := ((nso.segments u).contains_iff b).mp hcu
  have hnew : (nso.overlay t off data).readNso b n = .ok (slice
      ((nso.overlay t off data).segments u).rawData
      (b.toNat - (nso.segments u).address.toNat) n) := by
    unfold Nso.readNso at hread ⊢
    rw [getAddressSegment_congr hl]
    simp only [hseg, NsoSegment.endAddress, address_congr hl, decompressedSize_congr hl, memoryRead,
      rawLength_congr hl, NsoSegment.toNat_sub_address hcu] at hread ⊢
    split_ifs at hread with h₁ h₂ h₃ h₄
    rw [if_neg h₁, if_neg h₂, if_neg h₃, if_neg h₄, Int.toNat_natCast]
  rw [hnew]
  congr 1
  by_cases hu : u = t
  · subst hu
    rw [segments_overlay_same, NsoSegment.overlay, slice_overwrite,
      ← replaceRange_add_left _ _ _ (nso.segments u).address.toNat]
    congr 1 <;> omega
  · -- the bytes of the read and those of the write lie in different segments
    rw [segments_overlay_of_ne hu nso off data, replaceRange_of_disjoint]
    intro k hk
    rw [length_slice] at hk
    by_contra hboth
    have hbt : b.toNat + k < 2 ^ 32 := by omega
    have haddr : (UInt32.ofNat (b.toNat + k)).toNat = b.toNat + k := UInt32.toNat_ofNat_of_lt' hbt
    have ht := ((nso.segments t).contains_iff addr).mp hin.1
    have hend' := hin.2
    refine hu (h.disjoint u t (UInt32.ofNat (b.toNat + k)) ?_ ?_)
    all_goals
      rw [NsoSegment.contains_iff, haddr]
      omega

/-- The laws of a store. -/
theorem IsStore.writeNso_laws (h : nso.IsStore) (addr : UInt32) (data : Bytes) :
    ((∃ nso', writeNso addr data nso = .ok () nso') ↔ ∃ t, nso.InSegment t addr data.length) ∧
      (∀ x nso', writeNso addr data nso = .error x nso' →
        (∃ message, x = .app (.nso message)) ∧ nso' = nso) ∧
      ∀ nso', writeNso addr data nso = .ok () nso' →
        (∀ b (n : ℕ) old, nso.readNso b n = .ok old →
          nso'.readNso b n = .ok (replaceRange old b.toNat addr.toNat data)) ∧
        nso' = { nso with segments := nso'.segments } ∧
        ∃ t, nso.InSegment t addr data.length ∧ (∀ u ≠ t, nso'.segments u = nso.segments u) ∧
          nso'.segments t = { nso.segments t with
            rawData := (nso'.segments t).rawData
            sha256 := some (computeHash (nso'.segments t).rawData) } := by
  refine ⟨⟨?_, ?_⟩, ?_, ?_⟩
  · rintro ⟨nso', hw⟩
    obtain ⟨t, off, hloc, -⟩ := writeNso_eq_ok hw
    exact ⟨t, inSegment_of_locate hloc⟩
  · rintro ⟨t, hin⟩
    exact ⟨_, writeNso_of_locate (h.locate_of_inSegment hin)⟩
  · intro x nso' hw
    obtain ⟨hloc, hsame⟩ := writeNso_eq_error hw
    exact ⟨locate_eq_error h.sized hloc, hsame⟩
  · intro nso' hw
    obtain ⟨t, off, hloc, rfl⟩ := writeNso_eq_ok hw
    refine ⟨fun b n old hread => h.readNso_overlay hloc hread, overlay_eq nso t off data, t,
      inSegment_of_locate hloc, fun u hu => segments_overlay_of_ne hu nso off data, ?_⟩
    rw [segments_overlay_same]
    rfl

/-- Three segments a page apart. -/
def threeSegments : Nso := createNso [1, 2] [3, 4, 5, 6] [7] 0

theorem isStore_threeSegments : threeSegments.IsStore := by
  have haddr : ∀ t, (threeSegments.segments t).address.toNat = 0x1000 * t.index := by
    intro t
    cases t <;> rfl
  have hsize : ∀ t, (threeSegments.segments t).decompressedSize.toNat ≤ 4 := by
    intro t
    cases t <;> decide
  have hindex : ∀ t u : NsoSegmentType, t.index = u.index → t = u := by
    intro t u
    cases t <;> cases u <;> decide
  refine ⟨?_, ?_, ?_⟩
  · intro t
    cases t <;> rfl
  · intro t u addr ht hu
    rw [NsoSegment.contains_iff, haddr] at ht hu
    have hst := hsize t
    have hsu := hsize u
    exact hindex t u (by omega)
  · intro t
    rw [haddr]
    have ht := hsize t
    have hi : t.index ≤ 2 := by cases t <;> decide
    omega

/-- A write inside rodata, and the read that covers it. -/
theorem writeNso_laws_threeSegments :
    ∃ nso', writeNso 0x1001 [9, 9] threeSegments = .ok () nso' ∧
      nso'.readNso 0x1000 4 = .ok [3, 9, 9, 6] := by
  have hlaws := isStore_threeSegments.writeNso_laws 0x1001 [9, 9]
  obtain ⟨nso', hw⟩ := hlaws.1.mpr ⟨rodata, by constructor <;> decide⟩
  have hread : threeSegments.readNso 0x1000 (4 : ℕ) = .ok [3, 4, 5, 6] := by decide
  exact ⟨nso', hw, (hlaws.2.2 nso' hw).1 0x1000 4 _ hread⟩

end Sp2Module.Nso
