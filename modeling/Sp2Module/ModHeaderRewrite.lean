import Sp2Module.ModObjFile
import Sp2Module.NsoImage

/-!
# Moving a module header

A rewrite stores the six addresses relative to the new place, but the base they are relative to
stays, and the writer takes from it both the pointer and the place. The only move that preserves
the addresses is the one to where the header already is.
-/

namespace Sp2Module.ModHeader

variable {nso nso' : Nso} {m m' : ModHeader} {newAddr : UInt32}

/-- The absolute addresses a header reports. -/
def addresses (m : ModHeader) : List ℤ :=
  [m.dynamicAddr, m.bssStartAddr, m.bssEndAddr, m.ehStartAddr, m.ehEndAddr, m.moduleObjAddr]

/-- Every address is within a signed 32-bit distance of `newAddr`. -/
def OffsetsFit (m : ModHeader) (newAddr : UInt32) : Prop :=
  ∀ a ∈ m.addresses, -2 ^ 31 ≤ a - newAddr.toNat ∧ a - newAddr.toNat < 2 ^ 31

/-- The header is found at `newAddr`, and what it points to is what `m` points to, both for the
rewritten object `m'` and for a header decoded from the image. -/
structure MovedTo (m : ModHeader) (newAddr : UInt32) (nso' : Nso) (m' : ModHeader) : Prop where
  pointer : nso'.getModAddr = .ok newAddr
  stored : ∃ buffer, nso'.readNso newAddr headerSize = .ok buffer ∧
    buffer.take 4 = asciiGetBytes headerMagic
  fresh : ∃ decoded, ofNso nso' = .ok decoded ∧ decoded.addresses = m.addresses
  kept : m'.addresses = m.addresses

/-- The rewrite at `newAddr` succeeds and moves the header there. -/
def Moves (m : ModHeader) (nso : Nso) (newAddr : UInt32) : Prop :=
  ∃ m' nso', m.rewrite newAddr nso = .ok m' nso' ∧ m.MovedTo newAddr nso' m'

/-- The word at 4 and the place the base names can be written, and the dynamic table is decoded once
the pointer and the header are there. -/
def Rewritable (m : ModHeader) (nso : Nso) : Prop :=
  ∃ t₀ off₀ t off info, nso.locate 4 4 = .ok (t₀, off₀) ∧
    nso.locate (uintOfLong m.baseAddr) headerSize = .ok (t, off) ∧
    DynamicInfo.ofNso
      ((nso.overlay t₀ off₀ (uintBytes (uintOfLong m.baseAddr))).overlay t off m.raw)
      m.dynamicAddr = .ok info

theorem write_eq_ok (m : ModHeader) (nso nso' : Nso) :
    m.write nso = .ok () nso' ↔ ∃ t₀ off₀ t off, nso.locate 4 4 = .ok (t₀, off₀) ∧
      nso.locate (uintOfLong m.baseAddr) headerSize = .ok (t, off) ∧
      nso' = (nso.overlay t₀ off₀ (uintBytes (uintOfLong m.baseAddr))).overlay t off m.raw := by
  have hlen : (uintBytes (uintOfLong m.baseAddr)).length = 4 := length_uintBytes _
  unfold write
  rw [estate_bind_eq_ok]
  constructor
  · rintro ⟨_, nso₁, hpointer, hheader⟩
    obtain ⟨t₀, off₀, hloc₀, rfl⟩ := Nso.writeNso_eq_ok hpointer
    obtain ⟨t, off, hloc, rfl⟩ := Nso.writeNso_eq_ok hheader
    rw [Nso.locate_congr (nso.layout_overlay t₀ off₀ _), length_raw] at hloc
    rw [hlen] at hloc₀
    exact ⟨t₀, off₀, t, off, hloc₀, hloc, rfl⟩
  · rintro ⟨t₀, off₀, t, off, hloc₀, hloc, rfl⟩
    refine ⟨(), _, Nso.writeNso_of_locate (by rw [hlen, hloc₀]), Nso.writeNso_of_locate ?_⟩
    rw [Nso.locate_congr (nso.layout_overlay t₀ off₀ _), length_raw, hloc]

theorem rewrite_eq_ok :
    m.rewrite newAddr nso = .ok m' nso' ↔
      m' = m.relocate newAddr ∧ (m.relocate newAddr).write nso = .ok () nso' := by
  unfold rewrite
  simp only [estate_bind_eq_ok]
  constructor
  · rintro ⟨_, nso₁, hwrite, hret⟩
    cases hret
    exact ⟨rfl, hwrite⟩
  · rintro ⟨rfl, hwrite⟩
    exact ⟨(), nso', hwrite, rfl⟩

/-- The stored offset is relative to the new place, the base is the old one. -/
theorem dynamicAddr_relocate (h : m.OffsetsFit newAddr) :
    (m.relocate newAddr).dynamicAddr = m.baseAddr + (m.dynamicAddr - newAddr.toNat) := by
  obtain ⟨hlo, hhi⟩ := h m.dynamicAddr (by simp [addresses])
  change m.baseAddr + (intOfLong (m.dynamicAddr - newAddr.toNat)).toInt = _
  rw [intOfLong, Int32.toInt_ofInt_of_le (by omega) (by omega)]

theorem relocate_self (h : m.baseAddr = newAddr.toNat) : m.relocate newAddr = m := by
  simp only [relocate, dynamicAddr, bssStartAddr, bssEndAddr, ehStartAddr, ehEndAddr,
    moduleObjAddr, ← h, intOfLong_add_sub]

/-- A header that keeps its addresses has not moved. -/
theorem Moves.baseAddr_eq (h : m.Moves nso newAddr) (hfit : m.OffsetsFit newAddr) :
    m.baseAddr = newAddr.toNat := by
  obtain ⟨m', nso', hrewrite, hmoved⟩ := h
  obtain ⟨rfl, -⟩ := rewrite_eq_ok.mp hrewrite
  have hdyn : (m.relocate newAddr).dynamicAddr = m.dynamicAddr :=
    (List.cons.inj hmoved.kept).1
  rw [dynamicAddr_relocate hfit] at hdyn
  omega

theorem Moves.rewritable (h : m.Moves nso newAddr) (hbase : m.baseAddr = newAddr.toNat) :
    m.Rewritable nso := by
  obtain ⟨m', nso', hrewrite, hmoved⟩ := h
  obtain ⟨-, hwrite⟩ := rewrite_eq_ok.mp hrewrite
  rw [relocate_self hbase] at hwrite
  obtain ⟨t₀, off₀, t, off, hloc₀, hloc, rfl⟩ := (write_eq_ok _ _ _).mp hwrite
  obtain ⟨decoded, hdecoded, haddr⟩ := hmoved.fresh
  obtain ⟨-, -, info, -, -, -, hinfo, -⟩ := ofNso_eq_ok hdecoded
  rw [show decoded.dynamicAddr = m.dynamicAddr from (List.cons.inj haddr).1] at hinfo
  exact ⟨t₀, off₀, t, off, info, hloc₀, hloc, hinfo⟩

/-- A header written where it is leaves the addresses as they are. -/
theorem Rewritable.moves (h : m.Rewritable nso) (hbase : m.baseAddr = newAddr.toNat)
    (hpointer : newAddr.toNat + headerSize ≤ 4 ∨ 8 ≤ newAddr.toNat) : m.Moves nso newAddr := by
  obtain ⟨t₀, off₀, t, off, info, hloc₀, hloc, hinfo⟩ := h
  have huint : uintOfLong m.baseAddr = newAddr := by rw [hbase, uintOfLong_toNat]
  rw [huint] at hloc hinfo
  have hwrite := (write_eq_ok m nso _).mpr
    ⟨t₀, off₀, t, off, hloc₀, by rw [huint, hloc], rfl⟩
  rw [huint] at hwrite
  -- the header is read back from its place, the pointer from beside the header
  set placed := nso.overlay t₀ off₀ (uintBytes newAddr) with hplaced
  have hlen : m.raw.length = headerSize := m.length_raw
  have hlocRaw : placed.locate newAddr m.raw.length = .ok (t, off) := by
    rw [hplaced, Nso.locate_congr (nso.layout_overlay t₀ off₀ _), hlen, hloc]
  have hraw : (placed.overlay t off m.raw).readNso newAddr headerSize = .ok m.raw := by
    have hread := Nso.readNso_overlay_same hlocRaw (by rw [hlen]; decide)
    rwa [hlen] at hread
  have hword : placed.getModAddr = .ok newAddr := by
    have hword₀ : nso.locate 4 (uintBytes newAddr).length = .ok (t₀, off₀) := by
      rw [length_uintBytes, hloc₀]
    have hread := Nso.readNso_overlay_same hword₀ (by rw [length_uintBytes]; decide)
    rw [length_uintBytes] at hread
    exact except_bind_eq_ok.mpr ⟨_, hread, toUInt32_uintBytes newAddr⟩
  obtain ⟨-, -, hoff, -, -⟩ := Nso.locate_eq_ok hlocRaw
  have hword' : (placed.overlay t off m.raw).getModAddr = .ok newAddr := by
    rw [getModAddr_overlay hoff (by rw [hlen]; omega), hword]
  refine ⟨m, _, rewrite_eq_ok.mpr ⟨(relocate_self hbase).symm, ?_⟩, hword', ?_, ?_, rfl⟩
  · rw [relocate_self hbase, hwrite]
  · refine ⟨m.raw, hraw, ?_⟩
    rw [raw, List.take_left' length_headerMagic]
  · exact ⟨_, ofNso_eq hword' hbase hraw hinfo, rfl⟩

/-- Where the header has been decoded from the image, writing it back changes no byte. -/
theorem rewritable_of_ofNso (hs : nso.Sized) (h : ofNso nso = .ok m) : m.Rewritable nso := by
  obtain ⟨base, hbase, hm, hread⟩ := readNso_of_ofNso hs h
  obtain ⟨-, -, info, -, -, -, hinfo, -⟩ := ofNso_eq_ok h
  obtain ⟨nso₁, t, off, hwrite, hsame, -, hloc⟩ := write_of_readNso hs hbase hread hm
  have hsame' : (nso₁.overlay t off m.raw).SameImage nso₁ := by
    rw [← hsame.readNso] at hread
    obtain ⟨t', off', hloc', -, hslice, -⟩ := Nso.locate_of_readNso (hsame.sized hs) hread
    rw [m.length_raw, hloc'] at hloc
    cases hloc
    obtain ⟨-, -, -, -, hfit⟩ := Nso.locate_eq_ok hloc'
    exact Nso.sameImage_overlay hfit hslice
  obtain ⟨t₀, off₀, t', off', hloc₀, hloc', heq⟩ := (write_eq_ok m nso _).mp hwrite
  refine ⟨t₀, off₀, t', off', info, hloc₀, hloc', ?_⟩
  rw [← heq, (hsame'.trans hsame).dynamicInfo, hinfo]

/-- A header moves exactly to the place it has; where it has been decoded from the image nothing
else is needed. -/
theorem moves_iff (hpointer : newAddr.toNat + headerSize ≤ 4 ∨ 8 ≤ newAddr.toNat)
    (hfit : m.OffsetsFit newAddr) :
    (m.Moves nso newAddr ↔ m.baseAddr = newAddr.toNat ∧ m.Rewritable nso) ∧
      (nso.Sized → ofNso nso = .ok m → (m.Moves nso newAddr ↔ m.baseAddr = newAddr.toNat)) := by
  have hgeneral : m.Moves nso newAddr ↔ m.baseAddr = newAddr.toNat ∧ m.Rewritable nso :=
    ⟨fun h => ⟨h.baseAddr_eq hfit, h.rewritable (h.baseAddr_eq hfit)⟩,
      fun h => h.2.moves h.1 hpointer⟩
  refine ⟨hgeneral, fun hs hdecoded => ?_⟩
  rw [hgeneral]
  exact and_iff_left (rewritable_of_ofNso hs hdecoded)

theorem offsetsFit_exampleHeader {newAddr : UInt32} (h : newAddr.toNat ≤ 0x2000) :
    exampleHeader.OffsetsFit newAddr := by
  have haddr : exampleHeader.addresses = [8, 0x101C, 0x101C, 0x1000, 0x1000, 0x1000] := by
    decide +kernel
  intro a ha
  rw [haddr] at ha
  simp only [List.mem_cons, List.not_mem_nil, or_false] at ha
  omega

/-- The header of the example stays where it is. -/
theorem moves_exampleHeader : exampleHeader.Moves (exampleNso 0) 0x1000 :=
  ((moves_iff (Or.inr (by decide)) (offsetsFit_exampleHeader (by decide))).2
    (fits_exampleNso 0).sized (ofNso_exampleNso 0)).mpr rfl

/-- It does not move into rodata, where it has room. -/
theorem not_moves_exampleHeader :
    (exampleNso 0).modSection = some exampleHeader ∧
      (exampleNso 0).InSegment .rodata 0x100 headerSize ∧ exampleHeader.OffsetsFit 0x100 ∧
      ¬ exampleHeader.Moves (exampleNso 0) 0x100 := by
  have hfit : exampleHeader.OffsetsFit 0x100 := offsetsFit_exampleHeader (by decide)
  refine ⟨rfl, ?_, hfit, fun h => ?_⟩
  · constructor <;> decide +kernel
  · have hbase := h.baseAddr_eq hfit
    revert hbase
    decide

end Sp2Module.ModHeader
