import Mathlib.Algebra.Order.Group.Int
import Mathlib.Data.List.Induction

/-!
# Stores that are overridden

A store gives a value to some of its keys. A write is a store, too: it has a value for the keys it
sets. Overriding one by the other is what performing the write means, and after a list of writes a
key has the value of the last one that sets it. `foldl_abstracts` carries a run on concrete states
over to the stores they stand for.
-/

namespace Sp2Module

variable {κ β : Type*} {m w : κ → Option β} {ws vs : List (κ → Option β)} {k : κ} {b : β}

/-- The store `m` with the values of `w` where it has one. -/
def override (m w : κ → Option β) : κ → Option β := fun k => (w k).or (m k)

def overrideAll (m : κ → Option β) (ws : List (κ → Option β)) : κ → Option β := ws.foldl override m

theorem override_of_some (h : w k = some b) : override m w k = some b := by
  rw [override, h, Option.some_or]

theorem override_of_none (h : w k = none) : override m w k = m k := by
  rw [override, h, Option.none_or]

/-- A write of nothing. -/
theorem override_none (m : κ → Option β) : override m (fun _ => none) = m :=
  funext fun _ => override_of_none rfl

@[simp] theorem overrideAll_nil (m : κ → Option β) : overrideAll m [] = m := rfl

@[simp] theorem overrideAll_cons (m w : κ → Option β) (ws : List (κ → Option β)) :
    overrideAll m (w :: ws) = overrideAll (override m w) ws := rfl

theorem overrideAll_append (m : κ → Option β) (ws vs : List (κ → Option β)) :
    overrideAll m (ws ++ vs) = overrideAll (overrideAll m ws) vs :=
  List.foldl_append

/-- What no write sets stays. -/
theorem overrideAll_of_forall_none (h : ∀ w ∈ ws, w k = none) : overrideAll m ws k = m k := by
  induction ws generalizing m with
  | nil => rfl
  | cons w ws ih =>
    rw [overrideAll_cons, ih fun v hv => h v (List.mem_cons_of_mem w hv)]
    exact override_of_none (h w List.mem_cons_self)

/-- What is set by a write and by none behind it. -/
theorem overrideAll_of_last (h : w k = some b) (hlast : ∀ v ∈ vs, v k = none) :
    overrideAll m (ws ++ w :: vs) k = some b := by
  rw [overrideAll_append, overrideAll_cons, overrideAll_of_forall_none hlast]
  exact override_of_some h

/-- A key keeps its value, or has the value of the last write that sets it. -/
theorem overrideAll_cases (m : κ → Option β) (ws : List (κ → Option β)) (k : κ) :
    ((∀ w ∈ ws, w k = none) ∧ overrideAll m ws k = m k) ∨
      ∃ us w vs b, ws = us ++ w :: vs ∧ w k = some b ∧ (∀ v ∈ vs, v k = none) ∧
        overrideAll m ws k = some b := by
  induction ws using List.reverseRecOn with
  | nil => exact Or.inl ⟨by simp, rfl⟩
  | append_singleton ws w ih =>
    cases hw : w k with
    | some b =>
      exact Or.inr ⟨ws, w, [], b, rfl, hw, by simp, overrideAll_of_last hw (by simp)⟩
    | none =>
      have hsame : overrideAll m (ws ++ [w]) k = overrideAll m ws k := by
        rw [overrideAll_append]
        exact override_of_none hw
      rw [hsame]
      rcases ih with ⟨hnone, hkeep⟩ | ⟨us, v, vs, b, rfl, hv, hlast, hval⟩
      · refine Or.inl ⟨fun v hv => ?_, hkeep⟩
        rcases List.mem_append.mp hv with hv | hv
        · exact hnone v hv
        · rw [List.mem_singleton.mp hv, hw]
      · refine Or.inr ⟨us, v, vs ++ [w], b, by simp, hv, fun u hu => ?_, hval⟩
        rcases List.mem_append.mp hu with hu | hu
        · exact hlast u hu
        · rw [List.mem_singleton.mp hu, hw]

/-- Two keys of two stores that are written alike. -/
theorem overrideAll_map_congr {ι κ' : Type*} {f : ι → κ → Option β} {g : ι → κ' → Option β}
    {is : List ι} {m' : κ' → Option β} {k' : κ'} (hm : m k = m' k')
    (h : ∀ i ∈ is, f i k = g i k') : overrideAll m (is.map f) k = overrideAll m' (is.map g) k' := by
  induction is generalizing m m' with
  | nil => exact hm
  | cons i is ih =>
    refine ih ?_ fun j hj => h j (List.mem_cons_of_mem i hj)
    rw [override, override, h i List.mem_cons_self, hm]

/-- Writes set keys that have a value and take no value away. -/
theorem isSome_overrideAll (h : ∀ w ∈ ws, (w k).isSome → (m k).isSome) :
    (overrideAll m ws k).isSome = (m k).isSome := by
  rcases overrideAll_cases m ws k with ⟨-, hkeep⟩ | ⟨us, w, vs, b, rfl, hw, -, hval⟩
  · rw [hkeep]
  · rw [hval, h w (by simp) (by rw [hw]; rfl), Option.isSome_some]

/-- The bytes of `data` from `start` on. -/
def rangeWrite (start : ℤ) (data : List β) : ℤ → Option β := fun x =>
  if start ≤ x then data[(x - start).toNat]? else none

theorem rangeWrite_eq_none {start x : ℤ} {data : List β} :
    rangeWrite start data x = none ↔ ¬ (start ≤ x ∧ x < start + data.length) := by
  unfold rangeWrite
  split_ifs with h
  · rw [List.getElem?_eq_none_iff]
    omega
  · simp [h]

/-- A run abstracts to the run of what its steps stand for. -/
theorem foldl_abstracts {σ α A W : Type*} {step : σ → α → σ} {astep : A → W → A} {abs : σ → A}
    {tr : α → W} {I : σ → Prop} {as : List α}
    (hstep : ∀ a ∈ as, ∀ s, I s → abs (step s a) = astep (abs s) (tr a) ∧ I (step s a))
    {s : σ} (hs : I s) :
    abs (as.foldl step s) = (as.map tr).foldl astep (abs s) ∧ I (as.foldl step s) := by
  induction as generalizing s with
  | nil => exact ⟨rfl, hs⟩
  | cons a as ih =>
    obtain ⟨habs, hI⟩ := hstep a List.mem_cons_self s hs
    obtain ⟨hrest, hI'⟩ := ih (fun b hb => hstep b (List.mem_cons_of_mem a hb)) hI
    refine ⟨?_, hI'⟩
    rw [List.foldl_cons, hrest, habs, List.map_cons, List.foldl_cons]

end Sp2Module
