import Mathlib.Data.List.Pairwise
import Sp2Module.PatchRejection

/-!
# Patch lists

A run of `ApplyPatches` resolves every entry against a layout that no write changes, so it is the
fold of the resolved writes. Writes of disjoint address ranges are disjoint writes, also where
modules overlap: a byte of a segment has one address below the slot it is found in. They commute,
and the order of the list is not seen.
-/

namespace Sp2Module

namespace ResolvedWrite

/-- Byte `k` of a segment is one the write sets. -/
def Covers (w : ResolvedWrite) (r : NsoRef) (t : NsoSegmentType) (k : ℕ) : Prop :=
  w.object = r ∧ w.segment = t ∧ w.offset ≤ k ∧ k < w.offset + w.bytes.length

def Fits (w : ResolvedWrite) (e : ExeFS) : Prop :=
  w.offset + w.bytes.length ≤ ((e.objects w.object).segments w.segment).rawData.length

/-- No byte is set by both. -/
def Apart (w w' : ResolvedWrite) : Prop := ∀ r t k, w.Covers r t k → ¬ w'.Covers r t k

theorem Apart.symm {w w' : ResolvedWrite} (h : w.Apart w') : w'.Apart w :=
  fun r t k hw' hw => h r t k hw hw'

theorem Fits.congr {w : ResolvedWrite} {e e' : ExeFS} (h : e'.SameLayout e) (hw : w.Fits e) :
    w.Fits e' := by
  unfold Fits
  rwa [Nso.rawLength_congr (h.objects w.object)]

end ResolvedWrite

/-! ### Writes that commute -/

theorem NsoSegment.overlay_comm (s : NsoSegment) {off off' : ℕ} {data data' : Bytes}
    (h : ∀ k, off ≤ k → k < off + data.length → ¬ (off' ≤ k ∧ k < off' + data'.length)) :
    (s.overlay off data).overlay off' data' = (s.overlay off' data').overlay off data := by
  simp only [NsoSegment.overlay, overwrite_comm s.rawData h]

namespace Nso

variable {t u : NsoSegmentType}

theorem setSegment_comm (h : t ≠ u) (nso : Nso) (s s' : NsoSegment) :
    (nso.setSegment t s).setSegment u s' = (nso.setSegment u s').setSegment t s := by
  simp only [setSegment, Function.update_comm h]

theorem setSegment_setSegment_same (nso : Nso) (t : NsoSegmentType) (s s' : NsoSegment) :
    (nso.setSegment t s).setSegment t s' = nso.setSegment t s' := by
  simp [setSegment]

theorem overlay_comm_of_ne (h : t ≠ u) (nso : Nso) (off off' : ℕ) (data data' : Bytes) :
    (nso.overlay t off data).overlay u off' data' =
      (nso.overlay u off' data').overlay t off data := by
  simp only [overlay, segments_setSegment_of_ne h, segments_setSegment_of_ne h.symm,
    setSegment_comm h]

theorem overlay_comm_same (nso : Nso) (t : NsoSegmentType) {off off' : ℕ} {data data' : Bytes}
    (h : ∀ k, off ≤ k → k < off + data.length → ¬ (off' ≤ k ∧ k < off' + data'.length)) :
    (nso.overlay t off data).overlay t off' data' =
      (nso.overlay t off' data').overlay t off data := by
  simp only [overlay, segments_setSegment_same, setSegment_setSegment_same,
    NsoSegment.overlay_comm _ h]

end Nso

namespace ExeFS

variable {e e' : ExeFS} {w w' : ResolvedWrite}

theorem setObject_comm {r r' : NsoRef} (h : r ≠ r') (e : ExeFS) (nso nso' : Nso) :
    (e.setObject r nso).setObject r' nso' = (e.setObject r' nso').setObject r nso := by
  simp only [setObject, Function.update_comm h]

theorem setObject_setObject_same (e : ExeFS) (r : NsoRef) (nso nso' : Nso) :
    (e.setObject r nso).setObject r nso' = e.setObject r nso' := by
  simp [setObject]

theorem overlay_comm (h : w.Apart w') (e : ExeFS) :
    (e.perform (some w)).perform (some w') = (e.perform (some w')).perform (some w) := by
  obtain ⟨r, t, off, data⟩ := w
  obtain ⟨r', t', off', data'⟩ := w'
  simp only [perform, overlay]
  by_cases hr : r = r'
  · subst hr
    rw [objects_setObject_same, objects_setObject_same, setObject_setObject_same,
      setObject_setObject_same]
    congr 1
    by_cases ht : t = t'
    · subst ht
      exact Nso.overlay_comm_same _ t fun k hle hlt hk =>
        h r t k ⟨rfl, rfl, hle, hlt⟩ ⟨rfl, rfl, hk⟩
    · exact Nso.overlay_comm_of_ne ht _ _ _ _ _
  · rw [objects_setObject_of_ne (Ne.symm hr), objects_setObject_of_ne hr, setObject_comm hr]

end ExeFS

/-! ### Where entries resolve to -/

namespace PatchEntry

variable {e e' : ExeFS} {symbols : Symbols} {p q : PatchEntry} {w w' : ResolvedWrite}

/-- No address is in the range of both entries. -/
def DisjointFrom (e : ExeFS) (symbols : Symbols) (p q : PatchEntry) : Prop :=
  ∀ a b, p.address.getAddress e symbols = .ok a → q.address.getAddress e symbols = .ok b →
    ∀ x, a ≤ x → x < a + p.data.length → ¬ (b ≤ x ∧ x < b + q.data.length)

theorem DisjointFrom.symm (h : DisjointFrom e symbols p q) : DisjointFrom e symbols q p :=
  fun a b ha hb x hle hlt hx => h b a hb ha x hx.1 hx.2 ⟨hle, hlt⟩

/-- The bytes of an entry belong at `w`: in the first module over its address, in the segment
there. An entry in a gap page belongs nowhere. -/
def Lands (e : ExeFS) (symbols : Symbols) (p : PatchEntry) : Option ResolvedWrite → Prop
  | none => ∃ a, p.address.getAddress e symbols = .ok a ∧ e.InGap a
  | some w => ∃ a i, p.address.getAddress e symbols = .ok a ∧
      p.data.buffer e symbols a = .ok w.bytes ∧ e.FirstOver a i ∧ e.nsos i = some w.object ∧
      (e.objects w.object).getAddressSegment (uintOfLong (a - e.getNsoAddress i)) =
        some w.segment ∧
      a = e.getNsoAddress i + ((e.objects w.object).segments w.segment).address.toNat + w.offset

theorem resolve_eq_ok {place : Option ResolvedWrite} (h : p.resolve e symbols = .ok place) :
    ∃ a buffer, p.address.getAddress e symbols = .ok a ∧
      p.data.buffer e symbols a = .ok buffer ∧
      ∃ l, e.locate a buffer.length = .ok l ∧
        place = l.map fun (r, t, off) => ⟨r, t, off, buffer⟩ := by
  unfold resolve at h
  cases ha : p.address.getAddress e symbols with
  | error x => rw [ha] at h; cases h
  | ok a =>
    simp only [ha, bind, Except.bind] at h
    cases hb : p.data.buffer e symbols a with
    | error x => rw [hb] at h; cases h
    | ok buffer =>
      simp only [hb] at h
      cases hl : e.locate a buffer.length with
      | error x => rw [hl] at h; cases h
      | ok l =>
        simp only [hl, pure, Except.pure, Except.ok.injEq] at h
        exact ⟨a, buffer, rfl, hb, l, hl, h.symm⟩

/-- An entry is written where it belongs, inside the buffer of the segment. -/
theorem lands_of_resolve {place : Option ResolvedWrite} (h : p.resolve e symbols = .ok place) :
    p.Lands e symbols place ∧ ∀ w, place = some w → w.Fits e := by
  obtain ⟨a, buffer, ha, hb, l, hl, rfl⟩ := resolve_eq_ok h
  cases l with
  | none => exact ⟨⟨a, ha, ExeFS.locate_eq_none hl⟩, by simp⟩
  | some l =>
    obtain ⟨r, t, off⟩ := l
    obtain ⟨-, i, -, -, hfirst, hr, hloc⟩ := ExeFS.locate_eq_some hl
    dsimp only at hr hloc
    obtain ⟨nso, -, hstart, hend⟩ := (e.inImage_iff a i).mp hfirst.1
    have hlt := nso.endAddress.toNat_lt
    have hcast := toNat_uintOfLong_of_lt (x := a - e.getNsoAddress i) (by omega) (by omega)
    obtain ⟨hseg, -, haddr, -, hraw⟩ := Nso.locate_eq_ok hloc
    refine ⟨⟨a, i, ha, hb, hfirst, hr, hseg, by dsimp only; omega⟩, ?_⟩
    intro w hw
    cases hw
    exact hraw

/-- Entries with disjoint ranges resolve to writes that set no byte in common. -/
theorem DisjointFrom.apart (hd : e.Distinct) (h : DisjointFrom e symbols p q)
    (hp : p.Lands e symbols (some w)) (hq : q.Lands e symbols (some w')) : w.Apart w' := by
  rintro r t k ⟨rfl, rfl, hle, hlt⟩ ⟨hr, ht, hle', hlt'⟩
  obtain ⟨a, i, ha, hbuf, -, hi, -, haddr⟩ := hp
  obtain ⟨b, j, hb, hbuf', -, hj, -, haddr'⟩ := hq
  rw [hr] at hj haddr'
  rw [ht] at haddr'
  obtain rfl := hd i j _ hi hj
  rw [PatchData.length_buffer hbuf] at hlt
  rw [PatchData.length_buffer hbuf'] at hlt'
  exact h a b ha hb (a + (k - w.offset)) (by omega) (by omega) (by omega)

end PatchEntry

/-! ### Runs -/

namespace PatchEntry

variable {e e' : ExeFS} {symbols : Symbols}

/-- The write an entry makes where the modules are laid out as in `e`. -/
def write (e : ExeFS) (symbols : Symbols) (p : PatchEntry) : Option ResolvedWrite :=
  match p.resolve e symbols with
  | .error _ => none
  | .ok w => w

def Resolves (e : ExeFS) (symbols : Symbols) (p : PatchEntry) : Prop :=
  ∃ w, p.resolve e symbols = .ok w

theorem Resolves.resolve_eq {p : PatchEntry} (h : p.Resolves e symbols) :
    p.resolve e symbols = .ok (p.write e symbols) := by
  obtain ⟨w, hw⟩ := h
  simp only [write, hw]

end PatchEntry

section Run

variable {e e' z : ExeFS} {symbols : Symbols} {ps qs : List PatchEntry}

/-- What the writes of a list do, one after another. -/
def ExeFS.performAll (e : ExeFS) (ws : List (Option ResolvedWrite)) : ExeFS :=
  ws.foldl ExeFS.perform e

theorem applyPatches_eq_ok_iff_of_sameLayout (h : z.SameLayout e) :
    applyPatches symbols ps z = .ok () e' ↔
      (∀ p ∈ ps, p.Resolves e symbols) ∧ e' = z.performAll (ps.map (·.write e symbols)) := by
  induction ps generalizing z with
  | nil => simp [applyPatches, ExeFS.performAll, eq_comm, EStateM.pure, pure]
  | cons p ps ih =>
    have hstep := p.apply_eq symbols z
    rw [p.resolve_congr h symbols] at hstep
    simp only [applyPatches, bind, EStateM.bind, hstep, List.forall_mem_cons, List.map_cons]
    cases hw : p.resolve e symbols with
    | error x => simp [PatchEntry.Resolves, hw]
    | ok w =>
      have hres : p.Resolves e symbols := ⟨w, hw⟩
      have hwrite : p.write e symbols = w := by simp only [PatchEntry.write, hw]
      simp only [hres, true_and, hwrite, ih ((z.sameLayout_perform w).trans h)]
      rfl

/-- A list is applied exactly when every entry resolves in the ExeFS it starts from. -/
theorem applyPatches_eq_ok_iff :
    applyPatches symbols ps e = .ok () e' ↔
      (∀ p ∈ ps, p.Resolves e symbols) ∧ e' = e.performAll (ps.map (·.write e symbols)) :=
  applyPatches_eq_ok_iff_of_sameLayout (ExeFS.SameLayout.refl e)

/-- `e'` is `e` with the bytes of every write in place, the hash of every segment written to
recomputed, and nothing else changed. -/
structure ExeFS.Overlaid (e : ExeFS) (ws : List (Option ResolvedWrite)) (e' : ExeFS) : Prop where
  nsos : e'.nsos = e.nsos
  npdm : e'.npdm = e.npdm
  written : ∀ w, some w ∈ ws → ∀ k, k < w.bytes.length →
    ((e'.objects w.object).segments w.segment).rawData[w.offset + k]? = w.bytes[k]?
  kept : ∀ r t k, (∀ w, some w ∈ ws → ¬ w.Covers r t k) →
    ((e'.objects r).segments t).rawData[k]? = ((e.objects r).segments t).rawData[k]?
  hashed : ∀ w, some w ∈ ws → ((e'.objects w.object).segments w.segment).sha256 =
    some (computeHash ((e'.objects w.object).segments w.segment).rawData)
  untouched : ∀ r t, (∀ w, some w ∈ ws → ¬ (w.object = r ∧ w.segment = t)) →
    (e'.objects r).segments t = (e.objects r).segments t

theorem ExeFS.segments_perform_same (e : ExeFS) (w : ResolvedWrite) :
    ((e.perform (some w)).objects w.object).segments w.segment =
      ((e.objects w.object).segments w.segment).overlay w.offset w.bytes := by
  simp only [perform, objects_overlay_same, Nso.segments_overlay_same]

theorem ExeFS.segments_perform_of_ne {w : ResolvedWrite} {r : NsoRef} {t : NsoSegmentType}
    (h : ¬ (w.object = r ∧ w.segment = t)) (e : ExeFS) :
    ((e.perform (some w)).objects r).segments t = (e.objects r).segments t := by
  by_cases hr : w.object = r
  · subst hr
    have ht : t ≠ w.segment := fun ht => h ⟨rfl, ht.symm⟩
    simp only [perform, objects_overlay_same, Nso.segments_overlay_of_ne ht]
  · simp only [perform, objects_overlay_of_ne (Ne.symm hr)]

theorem ExeFS.rawData_perform_of_not_covers {w : ResolvedWrite} {r : NsoRef} {t : NsoSegmentType}
    {k : ℕ} (h : ¬ w.Covers r t k) (e : ExeFS) :
    (((e.perform (some w)).objects r).segments t).rawData[k]? =
      ((e.objects r).segments t).rawData[k]? := by
  by_cases hrt : w.object = r ∧ w.segment = t
  · obtain ⟨rfl, rfl⟩ := hrt
    rw [segments_perform_same]
    apply getElem?_overwrite_outside
    by_contra hout
    exact h ⟨rfl, rfl, by omega, by omega⟩
  · rw [segments_perform_of_ne hrt]

/-- A skipped write changes nothing. -/
theorem ExeFS.Overlaid.cons_none {e e' : ExeFS} {ws : List (Option ResolvedWrite)}
    (h : e.Overlaid ws e') : e.Overlaid (none :: ws) e' := by
  have hmem : ∀ w : ResolvedWrite, some w ∈ none :: ws ↔ some w ∈ ws := by simp
  refine ⟨h.nsos, h.npdm, ?_, ?_, ?_, ?_⟩
  all_goals simp only [hmem]
  exacts [h.written, h.kept, h.hashed, h.untouched]

/-- A write apart from those that follow it is not overwritten by them. -/
theorem ExeFS.Overlaid.cons_some {e e' : ExeFS} {v : ResolvedWrite}
    {ws : List (Option ResolvedWrite)} (hv : v.Fits e) (hapart : ∀ w, some w ∈ ws → v.Apart w)
    (h : (e.perform (some v)).Overlaid ws e') : e.Overlaid (some v :: ws) e' where
  nsos := h.nsos
  npdm := h.npdm
  written w hmem k hlt := by
    rcases List.mem_cons.mp hmem with heq | hmem
    · obtain rfl := Option.some.inj heq
      have hcov : w.Covers w.object w.segment (w.offset + k) :=
        ⟨rfl, rfl, Nat.le_add_right _ _, by omega⟩
      rw [h.kept _ _ _ fun w' hw' => hapart w' hw' _ _ _ hcov, e.segments_perform_same w]
      unfold ResolvedWrite.Fits at hv
      simp only [NsoSegment.overlay]
      rw [getElem?_overwrite_inside (by omega) (by omega) (by omega), Nat.add_sub_cancel_left]
    · exact h.written w hmem k hlt
  kept r t k hout := by
    rw [h.kept r t k fun w hmem => hout w (List.mem_cons_of_mem _ hmem),
      rawData_perform_of_not_covers (hout v List.mem_cons_self)]
  hashed w hmem := by
    by_cases hother : ∃ w', some w' ∈ ws ∧ w'.object = w.object ∧ w'.segment = w.segment
    · obtain ⟨w', hmem', hr, ht⟩ := hother
      rw [← hr, ← ht]
      exact h.hashed w' hmem'
    · rcases List.mem_cons.mp hmem with heq | hmem
      · obtain rfl := Option.some.inj heq
        rw [h.untouched _ _ fun w' hmem' heq' => hother ⟨w', hmem', heq'⟩,
          e.segments_perform_same w]
        rfl
      · exact h.hashed w hmem
  untouched r t hne := by
    rw [h.untouched r t fun w hmem => hne w (List.mem_cons_of_mem _ hmem),
      segments_perform_of_ne (hne v List.mem_cons_self)]

theorem ExeFS.overlaid_performAll {e : ExeFS} {ws : List (Option ResolvedWrite)}
    (hfit : ∀ w, some w ∈ ws → w.Fits e)
    (hapart : ws.Pairwise fun a b => ∀ w w', a = some w → b = some w' → w.Apart w') :
    e.Overlaid ws (e.performAll ws) := by
  induction ws generalizing e with
  | nil => constructor <;> simp [performAll]
  | cons a ws ih =>
    rw [List.pairwise_cons] at hapart
    have hfit' : ∀ w, some w ∈ ws → w.Fits (e.perform a) := fun w hw =>
      (hfit w (List.mem_cons_of_mem _ hw)).congr (e.sameLayout_perform a)
    cases a with
    | none => exact (ih hfit' hapart.2).cons_none
    | some v =>
      exact (ih hfit' hapart.2).cons_some (hfit v List.mem_cons_self)
        fun w hw => hapart.1 _ hw v w rfl rfl

/-- All that later entries are resolved against is the same in `e'` as in `e`. -/
structure ExeFS.SamePlaces (e : ExeFS) (symbols : Symbols) (e' : ExeFS) : Prop where
  nsoAddress : ∀ i, e'.getNsoAddress i = e.getNsoAddress i
  memoryMap : e'.getMemoryMap = e.getMemoryMap
  patchAddress : ∀ q : PatchEntry, q.address.getAddress e' symbols = q.address.getAddress e symbols
  address : ∀ r t, ((e'.objects r).segments t).address = ((e.objects r).segments t).address
  decompressedSize : ∀ r t,
    ((e'.objects r).segments t).decompressedSize = ((e.objects r).segments t).decompressedSize
  bssOrAlign : ∀ r t,
    ((e'.objects r).segments t).bssOrAlign = ((e.objects r).segments t).bssOrAlign

theorem ExeFS.SameLayout.samePlaces {e e' : ExeFS} (h : e'.SameLayout e) (symbols : Symbols) :
    e.SamePlaces symbols e' where
  nsoAddress := h.getNsoAddress
  memoryMap := h.getMemoryMap
  patchAddress q := q.address.getAddress_congr h symbols
  address r := Nso.address_congr (h.objects r)
  decompressedSize r := Nso.decompressedSize_congr (h.objects r)
  bssOrAlign r := Nso.bssOrAlign_congr (h.objects r)

/-- No step of a run, completed or refused, moves anything. -/
theorem PatchEntry.samePlaces_apply {p : PatchEntry} {e e' : ExeFS} {symbols : Symbols}
    (h : p.apply symbols e = .ok () e' ∨ ∃ x, p.apply symbols e = .error x e') :
    e.SamePlaces symbols e' := by
  rcases h with h | ⟨x, h⟩
  · exact (sameLayout_apply h).samePlaces symbols
  · rw [apply_eq_error h]
    exact (ExeFS.SameLayout.refl e).samePlaces symbols

theorem ExeFS.performAll_perm {p : PatchEntry → Option ResolvedWrite} {e : ExeFS}
    (hapart : ps.Pairwise fun a b => ∀ w w', p a = some w → p b = some w' → w.Apart w')
    (hperm : qs.Perm ps) : e.performAll (qs.map p) = e.performAll (ps.map p) := by
  have hcomm : ∀ a ∈ ps, ∀ b ∈ ps, ∀ z : ExeFS,
      (z.perform (p a)).perform (p b) = (z.perform (p b)).perform (p a) := by
    have hsymm : Std.Symm fun a b : PatchEntry => ∀ z : ExeFS,
        (z.perform (p a)).perform (p b) = (z.perform (p b)).perform (p a) :=
      ⟨fun a b h z => (h z).symm⟩
    apply List.Pairwise.forall_of_forall
    · exact fun a _ z => rfl
    · refine hapart.imp ?_
      intro a b hab z
      cases ha : p a with
      | none => rfl
      | some w =>
        cases hb : p b with
        | none => rfl
        | some w' => exact overlay_comm (hab w w' ha hb) z
  simp only [performAll, List.foldl_map]
  exact (hperm.symm.foldl_eq' hcomm e).symm

/-- A run over entries with disjoint ranges does not depend on their order: it ends in the ExeFS
overlaid with the bytes of every entry, and no step moves what the others are resolved against. -/
theorem applyPatches_perm (hd : e.Distinct) (hps : ps.Pairwise (PatchEntry.DisjointFrom e symbols))
    (hrun : applyPatches symbols ps e = .ok () e') :
    (∀ qs, qs.Perm ps → applyPatches symbols qs e = .ok () e') ∧
      (∃ ws, List.Forall₂ (fun p w => p.Lands e symbols w) ps ws ∧ e.Overlaid ws e') ∧
      ∀ (p : PatchEntry) (z z' : ExeFS),
        (p.apply symbols z = .ok () z' ∨ ∃ x, p.apply symbols z = .error x z') →
          z.SamePlaces symbols z' := by
  obtain ⟨hres, rfl⟩ := applyPatches_eq_ok_iff.mp hrun
  have hlands : ∀ p ∈ ps, p.Lands e symbols (p.write e symbols) :=
    fun p hp => (PatchEntry.lands_of_resolve (hres p hp).resolve_eq).1
  have hapart : ps.Pairwise fun p q => ∀ w w', p.write e symbols = some w →
      q.write e symbols = some w' → w.Apart w' := by
    refine hps.imp_of_mem ?_
    intro p q hp hq hpq w w' hw hw'
    have hp' := hlands p hp
    have hq' := hlands q hq
    rw [hw] at hp'
    rw [hw'] at hq'
    exact hpq.apart hd hp' hq'
  refine ⟨?_, ⟨ps.map (·.write e symbols), ?_, ?_⟩, fun p z z' => PatchEntry.samePlaces_apply⟩
  · intro qs hperm
    refine applyPatches_eq_ok_iff.mpr ⟨fun q hq => hres q (hperm.mem_iff.mp hq), ?_⟩
    exact (ExeFS.performAll_perm hapart hperm).symm
  · rw [List.forall₂_map_right_iff, List.forall₂_same]
    exact hlands
  · apply ExeFS.overlaid_performAll
    · intro w hw
      obtain ⟨p, hp, hpw⟩ := List.mem_map.mp hw
      exact (PatchEntry.lands_of_resolve (hres p hp).resolve_eq).2 w hpw
    · exact List.pairwise_map.mpr hapart

end Run

/-- Two bytes of `main` and one in the gap between `rtld` and `main`. -/
def gapAndMain : List PatchEntry :=
  [⟨.offset .main 0, .data [1]⟩, ⟨.offset .main 1, .data [2]⟩, ⟨.offset .rtld 0x10, .data [3]⟩]

theorem applyPatches_perm_gapAndMain :
    ∃ e', applyPatches [] gapAndMain (ExeFS.firstSlots 2 (textNso [0, 0])) = .ok () e' ∧
      applyPatches [] gapAndMain.reverse (ExeFS.firstSlots 2 (textNso [0, 0])) = .ok () e' := by
  have hd := (ExeFS.wellFormed_firstSlots 2 (wellPlaced_textNso [0, 0])
    (sized_textNso (by decide))).distinct
  have hmain : (ExeFS.firstSlots 2 (textNso [0, 0])).getNsoAddress .main = 0x1000 := by decide
  have hrtld : (ExeFS.firstSlots 2 (textNso [0, 0])).getNsoAddress .rtld = 0 := by decide
  have hres : ∀ p ∈ gapAndMain, p.Resolves (ExeFS.firstSlots 2 (textNso [0, 0])) [] := by
    simp only [gapAndMain, List.forall_mem_cons]
    exact ⟨⟨some ⟨1, .text, 0, [1]⟩, by decide⟩, ⟨some ⟨1, .text, 1, [2]⟩, by decide⟩,
      ⟨none, by decide⟩, by simp⟩
  have hdisj : gapAndMain.Pairwise
      (PatchEntry.DisjointFrom (ExeFS.firstSlots 2 (textNso [0, 0])) []) := by
    simp only [gapAndMain, List.pairwise_cons, List.forall_mem_cons]
    refine ⟨⟨?_, ?_, by simp⟩, ⟨?_, by simp⟩, by simp, List.Pairwise.nil⟩
    all_goals
      intro a b ha hb x
      cases ha
      cases hb
      simp [hmain, hrtld, PatchData.length]
      omega
  have hrun := applyPatches_eq_ok_iff.mpr ⟨hres, rfl⟩
  exact ⟨_, hrun, (applyPatches_perm hd hdisj hrun).1 _ (List.reverse_perm _)⟩

end Sp2Module
