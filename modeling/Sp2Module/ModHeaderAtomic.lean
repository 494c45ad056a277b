import Sp2Module.ModHeaderRewrite

/-!
# Updates of the module header that fail

Writing a header stores the pointer to it first and then the header. `AllocModObj` makes the bss
larger before it looks for anything. An update that throws leaves behind what it has done so far.
-/

namespace Sp2Module

section Atomic

variable {ε σ α β : Type}

/-- A call that throws leaves the state as it was. -/
def Atomic (x : EStateM ε σ α) (s : σ) : Prop := ∀ e s', x s = .error e s' → s' = s

variable {x : EStateM ε σ α} {f : α → EStateM ε σ β} {s s' : σ}

theorem estate_bind_eq_error {e : ε} : (x >>= f) s = .error e s' ↔
    x s = .error e s' ∨ ∃ a s₁, x s = .ok a s₁ ∧ f a s₁ = .error e s' := by
  simp only [bind, EStateM.bind]
  cases x s with
  | error e s₁ => simp
  | ok a s₁ => simp

/-- Of two calls in sequence the second one has to restore the state before the first. -/
theorem atomic_bind_iff : Atomic (x >>= f) s ↔ Atomic x s ∧
    ∀ a s₁, x s = .ok a s₁ → ∀ e s', f a s₁ = .error e s' → s' = s := by
  unfold Atomic
  simp only [estate_bind_eq_error]
  constructor
  · intro h
    exact ⟨fun e s' he => h e s' (Or.inl he),
      fun a s₁ ha e s' he => h e s' (Or.inr ⟨a, s₁, ha, he⟩)⟩
  · rintro ⟨hx, hf⟩ e s' (he | ⟨a, s₁, ha, he⟩)
    · exact hx e s' he
    · exact hf a s₁ ha e s' he

/-- A result that is returned afterwards makes no difference. -/
theorem atomic_bind_pure {g : α → β} : Atomic (x >>= fun a => pure (g a)) s ↔ Atomic x s := by
  rw [atomic_bind_iff]
  refine and_iff_left fun a s₁ ha e s' he => ?_
  cases he

end Atomic

namespace Nso

variable {nso : Nso} {t : NsoSegmentType} {off : ℕ} {data : Bytes}

/-- A write changes nothing exactly when it writes what is there and the hash is right. -/
theorem overlay_eq_self_iff (hfit : off + data.length ≤ (nso.segments t).rawData.length) :
    nso.overlay t off data = nso ↔ slice (nso.segments t).rawData off data.length = data ∧
      (nso.segments t).sha256 = some (computeHash (nso.segments t).rawData) := by
  constructor
  · intro h
    have hseg : (nso.segments t).overlay off data = nso.segments t := by
      rw [← segments_overlay_same, h]
    have hraw : overwrite (nso.segments t).rawData off data = (nso.segments t).rawData :=
      congrArg NsoSegment.rawData hseg
    have hsha : some (computeHash (overwrite (nso.segments t).rawData off data)) =
        (nso.segments t).sha256 := congrArg NsoSegment.sha256 hseg
    have hslice := slice_overwrite_same hfit
    rw [hraw] at hslice hsha
    exact ⟨hslice, hsha.symm⟩
  · rintro ⟨hslice, hsha⟩
    have hraw := overwrite_self hfit
    rw [hslice] at hraw
    have hseg : (nso.segments t).overlay off data = nso.segments t := by
      rw [NsoSegment.overlay, hraw, ← hsha]
    rw [overlay, hseg, setSegment_self]

end Nso

namespace ModHeader

variable {nso nso' : Nso} {m : ModHeader}

/-- Where the pointer can be written, the header can be written at `base` as well, or the pointer is
there already, under the right hash. -/
def WrittenWhole (nso : Nso) (base : UInt32) : Prop :=
  ∀ t off, nso.locate 4 4 = .ok (t, off) →
    (∃ place, nso.locate base headerSize = .ok place) ∨
      slice (nso.segments t).rawData off 4 = uintBytes base ∧
        (nso.segments t).sha256 = some (computeHash (nso.segments t).rawData)

theorem atomic_writeNso (addr : UInt32) (data : Bytes) (nso : Nso) :
    Atomic (Nso.writeNso addr data) nso :=
  fun _ _ h => (Nso.writeNso_eq_error h).2

theorem atomic_write_iff (m : ModHeader) (nso : Nso) :
    Atomic m.write nso ↔ WrittenWhole nso (uintOfLong m.baseAddr) := by
  have hlen : (uintBytes (uintOfLong m.baseAddr)).length = 4 := length_uintBytes _
  have hheader : ∀ t off, (nso.overlay t off (uintBytes (uintOfLong m.baseAddr))).locate
      (uintOfLong m.baseAddr) m.raw.length = nso.locate (uintOfLong m.baseAddr) headerSize :=
    fun t off => by rw [length_raw, Nso.locate_congr (nso.layout_overlay t off _)]
  unfold write
  rw [atomic_bind_iff, and_iff_right (atomic_writeNso _ _ _)]
  constructor
  · intro h t off hloc
    cases hplace : nso.locate (uintOfLong m.baseAddr) headerSize with
    | ok place => exact Or.inl ⟨place, rfl⟩
    | error x =>
      refine Or.inr ?_
      have hpointer : Nso.writeNso 4 (uintBytes (uintOfLong m.baseAddr)) nso =
          .ok () (nso.overlay t off _) := Nso.writeNso_of_locate (by rw [hlen, hloc])
      have hsame := h () _ hpointer x (nso.overlay t off (uintBytes (uintOfLong m.baseAddr))) (by
        rw [Nso.writeNso_eq, hheader, hplace])
      obtain ⟨-, -, -, -, hfit⟩ := Nso.locate_eq_ok hloc
      have hiff := (Nso.overlay_eq_self_iff (by rw [hlen]; exact hfit)).mp hsame
      rwa [hlen] at hiff
  · intro h a nso₁ hpointer x nso' hw
    obtain ⟨t, off, hloc, rfl⟩ := Nso.writeNso_eq_ok hpointer
    obtain ⟨hplace, rfl⟩ := Nso.writeNso_eq_error hw
    rw [hheader] at hplace
    rw [hlen] at hloc
    obtain ⟨-, -, -, -, hfit⟩ := Nso.locate_eq_ok hloc
    rcases h t off hloc with ⟨place, hok⟩ | hkept
    · rw [hok] at hplace
      cases hplace
    · exact (Nso.overlay_eq_self_iff (by rw [hlen]; exact hfit)).mpr (by rw [hlen]; exact hkept)

theorem atomic_rewrite_iff (m : ModHeader) (newAddr : UInt32) (nso : Nso) :
    Atomic (m.rewrite newAddr) nso ↔ WrittenWhole nso (uintOfLong m.baseAddr) :=
  atomic_bind_pure.trans (atomic_write_iff _ _)

theorem createModHeader_eq (modBase dyn ehstart ehend modObj : ℤ) (nso : Nso) :
    createModHeader modBase dyn ehstart ehend modObj nso =
      ((create nso modBase dyn ehstart ehend modObj).write >>= fun _ =>
        pure (create nso modBase dyn ehstart ehend modObj)) nso := rfl

theorem createModHeader_of_write {modBase dyn ehstart ehend modObj : ℤ}
    (h : (create nso modBase dyn ehstart ehend modObj).write nso = .ok () nso') :
    createModHeader modBase dyn ehstart ehend modObj nso =
      .ok (create nso modBase dyn ehstart ehend modObj) nso' := by
  rw [createModHeader_eq]
  exact estate_bind_eq_ok.mpr ⟨(), nso', h, rfl⟩

theorem atomic_createModHeader_iff (modBase dyn ehstart ehend modObj : ℤ) (nso : Nso) :
    Atomic (createModHeader modBase dyn ehstart ehend modObj) nso ↔
      WrittenWhole nso (uintOfLong modBase) := by
  unfold Atomic
  rw [createModHeader_eq]
  exact atomic_bind_pure.trans (atomic_write_iff _ _)

/-- A header that cannot be written moves no segment. -/
theorem layout_of_write_eq_error {x : Exception} (h : m.write nso = .error x nso') :
    nso'.layout = nso.layout := by
  rcases estate_bind_eq_error.mp h with h | ⟨a, nso₁, hpointer, h⟩
  · rw [(Nso.writeNso_eq_error h).2]
  · obtain ⟨t, off, -, rfl⟩ := Nso.writeNso_eq_ok hpointer
    rw [(Nso.writeNso_eq_error h).2, Nso.layout_overlay]

end ModHeader

section Alloc

variable {nso nso' : Nso}

/-- There is a header to take the addresses from, and one can be written where the pointer leads. -/
def Allocatable (nso : Nso) : Prop :=
  ∃ base place, nso.getModAddr = .ok base ∧ nso.modSection ≠ none ∧
    nso.locate base ModHeader.headerSize = .ok place

/-- The bss is never as large as before. -/
theorem bssOrAlign_growBss_ne (nso : Nso) :
    (growBss nso).rwdataSegment.bssOrAlign ≠ nso.rwdataSegment.bssOrAlign := by
  rw [ModHeader.rwdataSegment_growBss]
  intro h
  have hnat := congrArg UInt32.toNat h
  rw [UInt32.toNat_add] at hnat
  have hlt := nso.rwdataSegment.bssOrAlign.toNat_lt
  have hc : (0x100 : UInt32).toNat = 0x100 := rfl
  omega

theorem Nso.SameImage.locate (h : nso.SameImage nso') (addr : UInt32) (n : ℕ) :
    nso.locate addr n = nso'.locate addr n := by
  simp only [Nso.locate, Nso.getAddressSegment, NsoSegment.Contains, NsoSegment.endAddress,
    h.address, h.decompressedSize, h.rawData]
  rfl

/-- The word that can be read at 4 can be written. -/
theorem exists_locate_of_getModAddr {base : UInt32} (h : nso.getModAddr = .ok base) :
    ∃ t off, nso.locate 4 4 = .ok (t, off) := by
  obtain ⟨b, hread, hb⟩ := except_bind_eq_ok.mp h
  have hlen : 4 ≤ b.length := by
    by_contra hlt
    rw [toUInt32, if_pos (by omega)] at hb
    cases hb
  obtain ⟨t, hseg, hend, rfl⟩ := Nso.readNso_eq_ok (n := 4) hread
  rw [length_slice] at hlen
  exact ⟨t, _, Nso.locate_of_le hseg hend (by omega)⟩

/-- The module object is allocated exactly where a header can be written. -/
theorem exists_allocModObj_iff : (∃ nso', allocModObj nso = .ok () nso') ↔ Allocatable nso := by
  have hgrow : (growBss nso).SameImage nso := nso.sameImage_setBssOrAlign .rwdata _
  constructor
  · rintro ⟨nso', h⟩
    unfold allocModObj at h
    dsimp only at h
    split at h
    · cases h
    · case _ base hbase =>
      split at h
      · cases h
      · case _ m hm =>
        rw [ModHeader.createModHeader_eq] at h
        split at h
        · cases h
        · case _ m' nso'' hcreate =>
          obtain ⟨_, nso₁, hwrite, -⟩ := estate_bind_eq_ok.mp hcreate
          obtain ⟨t₀, off₀, t, off, -, hloc, -⟩ := (ModHeader.write_eq_ok _ _ _).mp hwrite
          change (growBss nso).locate (uintOfLong base.toNat) _ = _ at hloc
          rw [uintOfLong_toNat, hgrow.locate] at hloc
          refine ⟨base, (t, off), hgrow.getModAddr.symm.trans hbase, ?_, hloc⟩
          intro hnone
          have hsome : nso.modSection = some m := hm
          rw [hnone] at hsome
          cases hsome
  · rintro ⟨base, ⟨t, off⟩, hbase, hmod, hloc⟩
    obtain ⟨m, hm⟩ := Option.ne_none_iff_exists'.mp hmod
    obtain ⟨t₀, off₀, hloc₀⟩ := exists_locate_of_getModAddr hbase
    rw [← hgrow.locate] at hloc hloc₀
    obtain ⟨nso', hwrite⟩ : ∃ nso', (ModHeader.create (growBss nso) base.toNat m.dynamicAddr
        m.ehStartAddr m.ehEndAddr m.bssEndAddr).write (growBss nso) = .ok () nso' := by
      refine ⟨_, (ModHeader.write_eq_ok _ _ _).mpr ⟨t₀, off₀, t, off, hloc₀, ?_, rfl⟩⟩
      change (growBss nso).locate (uintOfLong base.toNat) _ = _
      rw [uintOfLong_toNat, hloc]
    have hmod' : (growBss nso).modSection = some m := hm
    refine ⟨nso', ?_⟩
    unfold allocModObj
    simp only [hgrow.getModAddr.trans hbase, hmod', ModHeader.createModHeader_of_write hwrite]

/-- Where it cannot be allocated, the bss is larger all the same. -/
theorem bssOrAlign_of_allocModObj_eq_error {x : Exception} (h : allocModObj nso = .error x nso') :
    nso'.rwdataSegment.bssOrAlign = (growBss nso).rwdataSegment.bssOrAlign := by
  unfold allocModObj at h
  dsimp only at h
  split at h
  · cases h
    rfl
  · split at h
    · cases h
      rfl
    · rw [ModHeader.createModHeader_eq] at h
      split at h
      · case _ hcreate =>
        cases h
        rcases estate_bind_eq_error.mp hcreate with hwrite | ⟨_, _, -, hpure⟩
        · exact Nso.bssOrAlign_congr (ModHeader.layout_of_write_eq_error hwrite) .rwdata
        · cases hpure
      · cases h

/-- An allocation that throws has grown the bss, so it leaves the NSO as it was only where it
never throws. -/
theorem atomic_allocModObj_iff (nso : Nso) : Atomic allocModObj nso ↔ Allocatable nso := by
  rw [← exists_allocModObj_iff]
  constructor
  · intro h
    cases hrun : allocModObj nso with
    | ok a nso' => exact ⟨nso', rfl⟩
    | error x nso' =>
      have hbss := bssOrAlign_of_allocModObj_eq_error hrun
      rw [h x nso' hrun] at hbss
      exact absurd hbss.symm (bssOrAlign_growBss_ne nso)
  · rintro ⟨nso', hok⟩ x nso'' herr
    rw [hok] at herr
    cases herr

/-- Updates of the module header that throw leave the NSO as it was exactly where they cannot stop
between the pointer and the header, and for an allocation where it does not throw. -/
theorem atomic_iff (nso : Nso) :
    (∀ modBase dyn ehstart ehend modObj,
      Atomic (ModHeader.createModHeader modBase dyn ehstart ehend modObj) nso ↔
        ModHeader.WrittenWhole nso (uintOfLong modBase)) ∧
    (∀ (m : ModHeader) newAddr, Atomic (m.rewrite newAddr) nso ↔
      ModHeader.WrittenWhole nso (uintOfLong m.baseAddr)) ∧
    (Atomic allocModObj nso ↔ Allocatable nso) :=
  ⟨fun modBase dyn ehstart ehend modObj =>
      ModHeader.atomic_createModHeader_iff modBase dyn ehstart ehend modObj nso,
    fun m newAddr => ModHeader.atomic_rewrite_iff m newAddr nso, atomic_allocModObj_iff nso⟩

end Alloc

/-- Eight bytes of text, which hold a module pointer, and no room for a header. -/
def pointerNso : Nso := Nso.createNso [0, 0, 0, 0, 0, 0, 0, 0] [3] [7] 0

/-- A header that belongs at an address of no segment. -/
def strayHeader : ModHeader := ⟨0x5000, 0, 0, 0, 0, 0, 0, none⟩

/-- The pointer is changed although the header cannot be written, and the bss grows although there
is no header to copy. -/
theorem not_atomic_pointerNso :
    ¬ Atomic (ModHeader.createModHeader 0x5000 0 0 0 0) pointerNso ∧
    ¬ Atomic (strayHeader.rewrite 0) pointerNso ∧ ¬ Atomic allocModObj pointerNso := by
  have hstray : ¬ ModHeader.WrittenWhole pointerNso (uintOfLong 0x5000) := by
    intro h
    rcases h .text 4 (by decide) with ⟨place, hplace⟩ | ⟨hslice, -⟩
    · have herror : pointerNso.locate (uintOfLong 0x5000) ModHeader.headerSize =
          .error (.app (.nso "Invalid Address")) := by decide
      rw [herror] at hplace
      cases hplace
    · revert hslice
      decide
  refine ⟨?_, ?_, ?_⟩
  · rwa [ModHeader.atomic_createModHeader_iff]
  · rwa [ModHeader.atomic_rewrite_iff]
  · rw [atomic_allocModObj_iff]
    rintro ⟨base, place, -, hmod, -⟩
    exact hmod rfl

end Sp2Module
