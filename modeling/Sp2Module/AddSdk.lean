import Sp2Module.ExeFSPlacement
import Sp2Module.PatchConfig

/-!
# Adding the custom module

The custom module takes the last slot, and the module that was there moves to `subsdk0`, where
config addresses of `sdk` look for it. Nothing is lost exactly when that slot was free.
-/

namespace Sp2Module.ExeFS

open NsoTypeEnum

def addSdk (e : ExeFS) (custom : NsoRef) : ExeFS :=
  let sdk := e.getNso sdk
  (e.setNso sdk subsdk0).setNso (some custom) .sdk

variable {e : ExeFS} {custom r : NsoRef} {i : NsoTypeEnum}

@[simp] theorem nsos_addSdk_sdk (e : ExeFS) (custom : NsoRef) :
    (e.addSdk custom).nsos sdk = some custom := by
  simp [addSdk, setNso]

@[simp] theorem nsos_addSdk_subsdk0 (e : ExeFS) (custom : NsoRef) :
    (e.addSdk custom).nsos subsdk0 = e.nsos sdk := by
  simp [addSdk, setNso, getNso]

theorem nsos_addSdk_of_ne (h : i ≠ subsdk0) (h' : i ≠ sdk) :
    (e.addSdk custom).nsos i = e.nsos i := by
  simp [addSdk, setNso, h, h']

@[simp] theorem objects_addSdk (e : ExeFS) (custom : NsoRef) :
    (e.addSdk custom).objects = e.objects := rfl

/-- The custom module has been inserted behind all the others, each of them is still there, and the
addresses a config can name lead to the modules they named before. -/
structure Inserted (e : ExeFS) (custom : NsoRef) : Prop where
  present : ∀ i r, e.nsos i = some r → ∃ j, (e.addSdk custom).nsos j = some r
  once : ∀ i, (e.addSdk custom).nsos i = some custom ↔ i = sdk
  last : ∀ i r, (e.addSdk custom).nsos i = some r → i ≠ sdk → i.index < sdk.index ∧
    (e.addSdk custom).getNsoAddress i ≤ (e.addSdk custom).getNsoAddress sdk
  resolves : ∀ T ∈ [rtld, main, sdk], ∀ r, e.nsos T = some r → ∀ symbols x,
    ∃ j, (e.addSdk custom).nsos j = some r ∧
      (MemAddress.offset T x).getAddress (e.addSdk custom) symbols =
        .ok ((e.addSdk custom).getNsoAddress j + x.toNat)

/-- Slot `subsdk0` is not needed, and the custom module is in no other slot. -/
structure Subsdk0Free (e : ExeFS) (custom : NsoRef) : Prop where
  spare : ∀ r, e.nsos subsdk0 = some r → r = custom ∨ ∃ j, j ≠ subsdk0 ∧ e.nsos j = some r
  fresh : ∀ j, j ≠ subsdk0 → e.nsos j ≠ some custom

theorem index_lt_sdk (h : i ≠ sdk) : i.index < sdk.index := by
  cases i with
  | sdk => exact absurd rfl h
  | _ => decide

/-- The object of a slot that has not been overwritten is still there. -/
theorem exists_addSdk (custom : NsoRef) (hi : i ≠ subsdk0) (h : e.nsos i = some r) :
    ∃ j, (e.addSdk custom).nsos j = some r := by
  by_cases hsdk : i = sdk
  · subst hsdk
    exact ⟨subsdk0, by rw [nsos_addSdk_subsdk0, h]⟩
  · exact ⟨i, by rw [nsos_addSdk_of_ne hi hsdk, h]⟩

/-- The addresses a config can name always lead to the modules they named before. -/
theorem exists_getAddress_addSdk (custom : NsoRef) {T : NsoTypeEnum} (hT : T ∈ [rtld, main, sdk])
    (h : e.nsos T = some r) (symbols : Symbols) (x : UInt32) :
    ∃ j, (e.addSdk custom).nsos j = some r ∧
      (MemAddress.offset T x).getAddress (e.addSdk custom) symbols =
        .ok ((e.addSdk custom).getNsoAddress j + x.toNat) := by
  simp only [List.mem_cons, List.not_mem_nil, or_false] at hT
  rcases hT with rfl | rfl | rfl
  · exact ⟨rtld, by rw [nsos_addSdk_of_ne (by decide) (by decide), h], rfl⟩
  · exact ⟨main, by rw [nsos_addSdk_of_ne (by decide) (by decide), h], rfl⟩
  · exact ⟨subsdk0, by rw [nsos_addSdk_subsdk0, h], rfl⟩

theorem Subsdk0Free.inserted (h : e.Subsdk0Free custom) : e.Inserted custom where
  present i r hi := by
    by_cases hsub : i = subsdk0
    · subst hsub
      rcases h.spare r hi with rfl | ⟨j, hj, hr⟩
      · exact ⟨sdk, nsos_addSdk_sdk e r⟩
      · exact exists_addSdk custom hj hr
    · exact exists_addSdk custom hsub hi
  once i := by
    constructor
    · intro hi
      by_contra hsdk
      by_cases hsub : i = subsdk0
      · subst hsub
        rw [nsos_addSdk_subsdk0] at hi
        exact h.fresh sdk (by decide) hi
      · rw [nsos_addSdk_of_ne hsub hsdk] at hi
        exact h.fresh i hsub hi
    · rintro rfl
      exact nsos_addSdk_sdk e custom
  last i r _ hi := ⟨index_lt_sdk hi, getNsoAddress_mono _ (index_lt_sdk hi).le⟩
  resolves T hT r hr symbols x := exists_getAddress_addSdk custom hT hr symbols x

theorem Inserted.subsdk0Free (h : e.Inserted custom) : e.Subsdk0Free custom where
  spare r hr := by
    obtain ⟨j, hj⟩ := h.present subsdk0 r hr
    by_cases hsdk : j = sdk
    · subst hsdk
      rw [nsos_addSdk_sdk] at hj
      exact Or.inl (Option.some.inj hj).symm
    · by_cases hsub : j = subsdk0
      · subst hsub
        rw [nsos_addSdk_subsdk0] at hj
        exact Or.inr ⟨sdk, by decide, hj⟩
      · rw [nsos_addSdk_of_ne hsub hsdk] at hj
        exact Or.inr ⟨j, hsub, hj⟩
  fresh j hj hr := by
    by_cases hsdk : j = sdk
    · subst hsdk
      have hsub : subsdk0 = sdk := (h.once subsdk0).mp (by rw [nsos_addSdk_subsdk0, hr])
      cases hsub
    · exact hsdk ((h.once j).mp (by rw [nsos_addSdk_of_ne hj hsdk, hr]))

/-- Nothing is lost exactly when the slot of the old sdk was free. -/
theorem inserted_iff_subsdk0Free (e : ExeFS) (custom : NsoRef) :
    e.Inserted custom ↔ e.Subsdk0Free custom :=
  ⟨fun h => h.subsdk0Free, fun h => h.inserted⟩

/-- All slots are taken: the module of `subsdk0` is lost. -/
theorem not_inserted_firstSlots_all : (firstSlots 13 (textNso [0])).nsos sdk = some 12 ∧
    (firstSlots 13 (textNso [0])).Distinct ∧ ¬ (firstSlots 13 (textNso [0])).Inserted 13 := by
  have hwf := wellFormed_firstSlots 13 (wellPlaced_textNso [0]) (sized_textNso (by decide))
  refine ⟨rfl, hwf.distinct, fun h => ?_⟩
  rcases h.subsdk0Free.spare 2 rfl with hcustom | ⟨j, hj, hr⟩
  · cases hcustom
  · exact hj (hwf.distinct j subsdk0 2 hr rfl)

/-- With modules of their own in the slots and a new custom module, the slot has to be empty. -/
theorem subsdk0Free_iff_of_distinct (hd : e.Distinct) (hf : ∀ i, e.nsos i ≠ some custom) :
    e.Subsdk0Free custom ↔ e.nsos subsdk0 = none := by
  constructor
  · intro h
    cases hr : e.nsos subsdk0 with
    | none => rfl
    | some r =>
      rcases h.spare r hr with rfl | ⟨j, hj, hr'⟩
      · exact absurd hr (hf subsdk0)
      · exact absurd (hd j subsdk0 r hr' hr) hj
  · intro h
    refine ⟨fun r hr => ?_, fun j _ => hf j⟩
    rw [h] at hr
    cases hr

end Sp2Module.ExeFS
