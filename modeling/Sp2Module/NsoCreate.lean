import Sp2Module.NsoImage

/-!
# Freshly built NSOs

`CreateNso` gives each segment the pages its data needs. While the pages of the three segments
stay below `2 ^ 32` the result is a store, and each address belongs to the segment whose data is
there. `EndAddress` is a 32-bit number, which an end at `2 ^ 32` is not.
-/

namespace Sp2Module.Nso

open NsoSegmentType

variable {textData rodataData rwdataData : Bytes} {bssSize : UInt32}

/-- The bytes from the start of the image that are taken by the pages of three arrays. -/
def pagesEnd (textData rodataData rwdataData : Bytes) : ℤ :=
  alignUp 0x1000 textData.length + alignUp 0x1000 rodataData.length +
    alignUp 0x1000 rwdataData.length

/-- The address behind the data of a segment, not reduced to 32 bits. -/
def dataEnd (nso : Nso) (t : NsoSegmentType) : ℕ :=
  (nso.segments t).address.toNat + (nso.segments t).rawData.length

/-- What `CreateNso` promises for three arrays and a bss size. -/
structure LaidOut (nso : Nso) (textData rodataData rwdataData : Bytes) (bssSize : UInt32) :
    Prop where
  text_rawData : nso.textSegment.rawData = textData
  rodata_rawData : nso.rodataSegment.rawData = rodataData
  rwdata_rawData : nso.rwdataSegment.rawData = rwdataData
  starts : nso.textSegment.address = 0
  aligned : ∀ t, 0x1000 ∣ (nso.segments t).address.toNat
  ascending : ∀ t u, t.index < u.index → nso.dataEnd t ≤ (nso.segments u).address.toNat
  getAddressSegment : ∀ t off, off < (nso.segments t).rawData.length →
    nso.getAddressSegment ((nso.segments t).address + UInt32.ofNat off) = some t
  readNso : ∀ t off n, off < (nso.segments t).rawData.length →
    off + n ≤ (nso.segments t).rawData.length →
    nso.readNso ((nso.segments t).address + UInt32.ofNat off) n =
      .ok (slice (nso.segments t).rawData off n)
  elsewhere : ∀ addr, (∀ t, addr.toNat < (nso.segments t).address.toNat ∨
    nso.dataEnd t ≤ addr.toNat) → nso.getAddressSegment addr = none
  endAddress : nso.dataEnd rwdata + bssSize.toNat < 2 ^ 32 →
    nso.endAddress.toNat = nso.dataEnd rwdata + bssSize.toNat
  endAddress_wraps : nso.dataEnd rwdata + bssSize.toNat = 2 ^ 32 → nso.endAddress = 0

/-- The array of each segment. -/
def arrays (textData rodataData rwdataData : Bytes) : NsoSegmentType → Bytes
  | text => textData
  | rodata => rodataData
  | rwdata => rwdataData

theorem toNat_pageSize {data : Bytes} (h : alignUp 0x1000 data.length < 2 ^ 32) :
    ((pageSize data).toNat : ℤ) = alignUp 0x1000 data.length :=
  toNat_uintOfLong_of_lt (alignUp_nonneg (by decide) (Int.natCast_nonneg _)) h

theorem length_le_pages (data : Bytes) : (data.length : ℤ) ≤ alignUp 0x1000 data.length :=
  le_alignUp (by decide)

/-- Segments one behind the other are those of a store. -/
theorem isStore_of_ascending {nso : Nso} (hs : nso.Sized)
    (hasc : ∀ t u, t.index < u.index → nso.dataEnd t ≤ (nso.segments u).address.toNat)
    (hlt : ∀ t, nso.dataEnd t < 2 ^ 32) : nso.IsStore where
  sized := hs
  disjoint t u addr ht hu := by
    rw [NsoSegment.contains_iff, ← hs] at ht hu
    by_contra hne
    have hindex : t.index < u.index ∨ u.index < t.index := by
      cases t <;> cases u <;> first | decide | exact absurd rfl hne
    unfold dataEnd at hasc
    rcases hindex with h | h
    · have hle := hasc t u h
      omega
    · have hle := hasc u t h
      omega
  noWrap t := by
    rw [← hs]
    exact hlt t

section Store

variable {nso : Nso} {t : NsoSegmentType} {off n : ℕ}

theorem IsStore.toNat_address_add (h : nso.IsStore) (hoff : off < (nso.segments t).rawData.length) :
    ((nso.segments t).address + UInt32.ofNat off).toNat = (nso.segments t).address.toNat + off := by
  have hlt := h.noWrap t
  rw [← h.sized] at hlt
  rw [UInt32.toNat_add, UInt32.toNat_ofNat_of_lt' (by change off < 2 ^ 32; omega),
    Nat.mod_eq_of_lt (by omega)]

theorem IsStore.getAddressSegment_address_add (h : nso.IsStore)
    (hoff : off < (nso.segments t).rawData.length) :
    nso.getAddressSegment ((nso.segments t).address + UInt32.ofNat off) = some t := by
  apply h.getAddressSegment
  have hlt := h.noWrap t
  rw [NsoSegment.contains_iff, h.toNat_address_add hoff, ← h.sized]
  rw [← h.sized] at hlt
  omega

theorem IsStore.readNso_address_add (h : nso.IsStore)
    (hmax : (nso.segments t).rawData.length ≤ maxArrayLength)
    (hoff : off < (nso.segments t).rawData.length)
    (hn : off + n ≤ (nso.segments t).rawData.length) :
    nso.readNso ((nso.segments t).address + UInt32.ofNat off) n =
      .ok (slice (nso.segments t).rawData off n) := by
  have haddr := h.toNat_address_add hoff
  have hread := readNso_of_getAddressSegment (n := n) (h.getAddressSegment_address_add hoff)
    (by rw [haddr, ← h.sized]; omega) (by omega) (by omega)
  rwa [haddr, Nat.add_sub_cancel_left] at hread

theorem IsStore.getAddressSegment_elsewhere (h : nso.IsStore) {addr : UInt32}
    (hout : ∀ t, addr.toNat < (nso.segments t).address.toNat ∨ nso.dataEnd t ≤ addr.toNat) :
    nso.getAddressSegment addr = none := by
  rw [getAddressSegment_eq_none]
  intro t hc
  rw [NsoSegment.contains_iff, ← h.sized] at hc
  have ht := hout t
  unfold dataEnd at ht
  omega

/-- The 32-bit sum of `EndAddress`. -/
theorem IsStore.toNat_endAddress (h : nso.IsStore) :
    nso.endAddress.toNat =
      (nso.dataEnd rwdata + nso.rwdataSegment.bssOrAlign.toNat) % 2 ^ 32 := by
  have hs := h.sized rwdata
  unfold endAddress dataEnd rwdataSegment
  rw [UInt32.toNat_add, UInt32.toNat_add, Nat.mod_add_mod, hs]

end Store

section Layout

variable (hpages : pagesEnd textData rodataData rwdataData < 2 ^ 32)
include hpages

theorem pages_lt (t : NsoSegmentType) :
    alignUp 0x1000 (arrays textData rodataData rwdataData t).length < 2 ^ 32 := by
  have ht := length_le_pages textData
  have hro := length_le_pages rodataData
  have hrw := length_le_pages rwdataData
  unfold pagesEnd at hpages
  cases t
  all_goals
    dsimp only [arrays]
    omega

theorem toNat_rwdata_address :
    (pageSize textData + pageSize rodataData).toNat =
      (pageSize textData).toNat + (pageSize rodataData).toNat := by
  have htp := toNat_pageSize (pages_lt hpages text)
  have hrop := toNat_pageSize (pages_lt hpages rodata)
  have hrw := length_le_pages rwdataData
  unfold pagesEnd at hpages
  rw [UInt32.toNat_add, Nat.mod_eq_of_lt]
  dsimp only [arrays] at htp hrop
  omega

/-- Each segment has its array, in pages that end where those of the next segment begin. -/
theorem createNso_segments (bssSize : UInt32) (t : NsoSegmentType) :
    let s := (createNso textData rodataData rwdataData bssSize).segments t
    s.rawData = arrays textData rodataData rwdataData t ∧
      s.decompressedSize.toNat = s.rawData.length := by
  have hlt := pages_lt hpages t
  have hle := length_le_pages (arrays textData rodataData rwdataData t)
  have hlen : (UInt32.ofNat (arrays textData rodataData rwdataData t).length).toNat =
      (arrays textData rodataData rwdataData t).length :=
    UInt32.toNat_ofNat_of_lt' (by change _ < 2 ^ 32; omega)
  cases t
  all_goals exact ⟨rfl, hlen⟩

/-- The data of each segment ends before the next one begins, and below `2 ^ 32`. -/
theorem createNso_dataEnd_le {t u : NsoSegmentType} (h : t.index < u.index) :
    (createNso textData rodataData rwdataData bssSize).dataEnd t ≤
      ((createNso textData rodataData rwdataData bssSize).segments u).address.toNat := by
  have htp := toNat_pageSize (pages_lt hpages text)
  have hrop := toNat_pageSize (pages_lt hpages rodata)
  have hsum := toNat_rwdata_address hpages
  have ht := length_le_pages textData
  have hro := length_le_pages rodataData
  dsimp only [arrays] at htp hrop
  cases t
  case text =>
    change 0 + textData.length ≤ _
    cases u
    case text => exact absurd h (by decide)
    case rodata =>
      change _ ≤ (pageSize textData).toNat
      omega
    case rwdata =>
      change _ ≤ (pageSize textData + pageSize rodataData).toNat
      omega
  case rodata =>
    cases u
    case rwdata =>
      change (pageSize textData).toNat + rodataData.length ≤
        (pageSize textData + pageSize rodataData).toNat
      omega
    all_goals exact absurd h (by decide)
  case rwdata => cases u <;> exact absurd h (by decide)

theorem createNso_dataEnd_lt (t : NsoSegmentType) :
    (createNso textData rodataData rwdataData bssSize).dataEnd t < 2 ^ 32 := by
  by_cases ht : t = rwdata
  · have htp := toNat_pageSize (pages_lt hpages text)
    have hrop := toNat_pageSize (pages_lt hpages rodata)
    have hsum := toNat_rwdata_address hpages
    have hrw := length_le_pages rwdataData
    unfold pagesEnd at hpages
    dsimp only [arrays] at htp hrop
    rw [ht]
    change (pageSize textData + pageSize rodataData).toNat + rwdataData.length < _
    omega
  · have hindex : t.index < rwdata.index := by
      cases t <;> first | decide | exact absurd rfl ht
    exact (createNso_dataEnd_le hpages hindex).trans_lt (UInt32.toNat_lt _)

theorem isStore_createNso : (createNso textData rodataData rwdataData bssSize).IsStore := by
  apply isStore_of_ascending
  · intro t
    exact (createNso_segments hpages bssSize t).2.symm
  · intro t u h
    exact createNso_dataEnd_le hpages h
  · intro t
    exact createNso_dataEnd_lt hpages t

theorem createNso_aligned (t : NsoSegmentType) :
    0x1000 ∣ ((createNso textData rodataData rwdataData bssSize).segments t).address.toNat := by
  have hdvd : ∀ t, 0x1000 ∣ (pageSize (arrays textData rodataData rwdataData t)).toNat := by
    intro t
    rw [← Int.natCast_dvd_natCast, toNat_pageSize (pages_lt hpages t)]
    exact dvd_alignUp _ _
  cases t
  case text => exact dvd_zero _
  case rodata => exact hdvd text
  case rwdata =>
    change _ ∣ (pageSize textData + pageSize rodataData).toNat
    rw [toNat_rwdata_address hpages]
    exact Nat.dvd_add (hdvd text) (hdvd rodata)

end Layout

/-- Three arrays whose pages end below `2 ^ 32` are laid out one behind the other. -/
theorem laidOut_createNso (bssSize : UInt32) (ht : textData.length ≤ maxArrayLength)
    (hro : rodataData.length ≤ maxArrayLength) (hrw : rwdataData.length ≤ maxArrayLength)
    (hpages : pagesEnd textData rodataData rwdataData < 2 ^ 32) :
    (createNso textData rodataData rwdataData bssSize).LaidOut textData rodataData rwdataData
      bssSize := by
  have hstore : (createNso textData rodataData rwdataData bssSize).IsStore :=
    isStore_createNso hpages
  have hmax : ∀ t, ((createNso textData rodataData rwdataData bssSize).segments t).rawData.length ≤
      maxArrayLength := by
    intro t
    cases t
    case text => exact ht
    case rodata => exact hro
    case rwdata => exact hrw
  have hend := hstore.toNat_endAddress
  constructor
  case text_rawData => rfl
  case rodata_rawData => rfl
  case rwdata_rawData => rfl
  case starts => rfl
  case aligned => exact createNso_aligned hpages
  case ascending => exact fun t u h => createNso_dataEnd_le hpages h
  case getAddressSegment => exact fun t off hoff => hstore.getAddressSegment_address_add hoff
  case readNso => exact fun t off n hoff hn => hstore.readNso_address_add (hmax t) hoff hn
  case elsewhere => exact fun addr hout => hstore.getAddressSegment_elsewhere hout
  case endAddress =>
    intro hlt
    rw [hend]
    exact Nat.mod_eq_of_lt hlt
  case endAddress_wraps =>
    intro heq
    apply UInt32.toNat_inj.mp
    rw [hend]
    change (_ + bssSize.toNat) % _ = 0
    rw [heq, Nat.mod_self]

/-- A text of more than a page, an empty rodata that shares its address with rwdata. -/
theorem laidOut_emptyRodata :
    (createNso (List.replicate 0x1001 7) [] [1, 2] 0x10).LaidOut (List.replicate 0x1001 7) [] [1, 2]
      0x10 := by
  have hlen : (List.replicate 0x1001 (7 : UInt8)).length = 0x1001 := List.length_replicate
  apply laidOut_createNso 0x10
  · rw [hlen]
    decide
  · decide
  · decide
  · unfold pagesEnd
    rw [hlen]
    decide

/-- Pages below `2 ^ 32` and a bss that ends there give the end address 0. -/
theorem createNso_endAddress_ne :
    ¬ ∀ (textData rodataData rwdataData : Bytes) (bssSize : UInt32),
      textData.length ≤ maxArrayLength → rodataData.length ≤ maxArrayLength →
      rwdataData.length ≤ maxArrayLength → pagesEnd textData rodataData rwdataData < 2 ^ 32 →
      (createNso textData rodataData rwdataData bssSize).dataEnd rwdata + bssSize.toNat ≤ 2 ^ 32 →
      (createNso textData rodataData rwdataData bssSize).endAddress.toNat =
        (createNso textData rodataData rwdataData bssSize).dataEnd rwdata + bssSize.toNat := by
  intro h
  exact absurd (h [] [] [0] 0xFFFFFFFF (by decide) (by decide) (by decide) (by decide)
    (by decide)) (by decide)

end Sp2Module.Nso
