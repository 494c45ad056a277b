import Mathlib.Data.List.Sort
import Mathlib.Data.List.Basic

/-!
# Maximal runs of a predicate

A run starts where the predicate holds and does not hold just before. `RunStarts P M c L` says that
`L` lists, in ascending order, the starts of the runs from `c` up to `M`. A cursor that moves over
intervals on which `P` is constant meets the runs in the order of the list.

The run of one value around a position is found by going from there to both sides.
-/

namespace Sp2Module

variable {P : ℕ → Prop} {M c d : ℕ} {L : List ℕ}

def RunStart (P : ℕ → Prop) (x : ℕ) : Prop := P x ∧ ∀ y, y + 1 = x → ¬ P y

/-- The starts of the runs in `[c, M)`. -/
structure RunStarts (P : ℕ → Prop) (M c : ℕ) (L : List ℕ) : Prop where
  sorted : L.Pairwise (· < ·)
  mem_iff : ∀ x, x ∈ L ↔ RunStart P x ∧ c ≤ x ∧ x < M

namespace RunStarts

/-- No run starts where `P` does not hold. -/
theorem skip (h : RunStarts P M c L) (hcd : c ≤ d) (hP : ∀ x, c ≤ x → x < d → ¬ P x) :
    RunStarts P M d L := by
  refine ⟨h.sorted, fun x => ?_⟩
  rw [h.mem_iff]
  constructor
  · rintro ⟨hstart, hle, hlt⟩
    refine ⟨hstart, ?_, hlt⟩
    by_contra hx
    exact hP x hle (by omega) hstart.1
  · rintro ⟨hstart, hle, hlt⟩
    exact ⟨hstart, by omega, hlt⟩

/-- The run that starts at the cursor is the first one, and no other run starts inside it. -/
theorem eq_cons (h : RunStarts P M c L) (hc : RunStart P c) (hcd : c < d) (hd : d ≤ M)
    (hP : ∀ x, c ≤ x → x < d → P x) : ∃ L', L = c :: L' ∧ RunStarts P M d L' := by
  have hmem : c ∈ L := (h.mem_iff c).mpr ⟨hc, le_rfl, by omega⟩
  cases L with
  | nil => simp at hmem
  | cons a L' =>
    have hsorted := List.pairwise_cons.mp h.sorted
    have ha := (h.mem_iff a).mp List.mem_cons_self
    have hac : a = c := by
      rcases List.mem_cons.mp hmem with rfl | htail
      · rfl
      · have hlt := hsorted.1 c htail
        omega
    subst hac
    refine ⟨L', rfl, hsorted.2, fun x => ?_⟩
    constructor
    · intro hx
      obtain ⟨hstart, hle, hlt⟩ := (h.mem_iff x).mp (List.mem_cons_of_mem a hx)
      have hax := hsorted.1 x hx
      refine ⟨hstart, ?_, hlt⟩
      by_contra hxd
      exact hstart.2 (x - 1) (by omega) (hP (x - 1) (by omega) (by omega))
    · rintro ⟨hstart, hle, hlt⟩
      rcases List.mem_cons.mp ((h.mem_iff x).mpr ⟨hstart, by omega, hlt⟩) with rfl | htail
      · omega
      · exact htail

theorem eq_nil (h : RunStarts P M c L) (hc : M ≤ c) : L = [] := by
  rw [List.eq_nil_iff_forall_not_mem]
  intro x hx
  have hlt := (h.mem_iff x).mp hx
  omega

end RunStarts

/-- Just behind an interval without `P` a run can only start. -/
theorem runStart_of_not (hcd : c < d) (hP : ∀ x, c ≤ x → x < d → ¬ P x) (hd : P d) :
    RunStart P d :=
  ⟨hd, fun y hy => hP y (by omega) (by omega)⟩

/-! ### The run around a position -/

section Around

variable {α : Type*} [DecidableEq α] (f : ℕ → α) (a : α)

/-- Where the values `a` that end just before a position start. -/
def runFirst : ℕ → ℕ
  | 0 => 0
  | c + 1 => if f c = a then runFirst c else c + 1

/-- Where the values `a` from a position on end, after at most a number of steps. -/
def runStop : ℕ → ℕ → ℕ
  | 0, c => c
  | n + 1, c => if f c = a then runStop n (c + 1) else c

theorem runFirst_spec (f : ℕ → α) (a : α) (c : ℕ) : runFirst f a c ≤ c ∧
    (∀ x, runFirst f a c ≤ x → x < c → f x = a) ∧ ∀ x, x + 1 = runFirst f a c → f x ≠ a := by
  induction c with
  | zero => simp [runFirst]
  | succ c ih =>
    by_cases hc : f c = a
    · obtain ⟨hle, heq, hne⟩ := ih
      rw [runFirst, if_pos hc]
      refine ⟨by omega, fun x hx hlt => ?_, hne⟩
      rcases Nat.lt_succ_iff_lt_or_eq.mp hlt with hlt | rfl
      · exact heq x hx hlt
      · exact hc
    · rw [runFirst, if_neg hc]
      refine ⟨le_rfl, fun x hx hlt => by omega, fun x hx => ?_⟩
      rwa [Nat.succ_inj.mp hx]

theorem runStop_spec (f : ℕ → α) (a : α) (n c : ℕ) : c ≤ runStop f a n c ∧
    runStop f a n c ≤ c + n ∧ (∀ x, c ≤ x → x < runStop f a n c → f x = a) ∧
    (runStop f a n c < c + n → f (runStop f a n c) ≠ a) := by
  induction n generalizing c with
  | zero =>
    rw [runStop]
    exact ⟨le_rfl, le_rfl, fun x hx hlt => by omega, fun hlt => by omega⟩
  | succ n ih =>
    by_cases hc : f c = a
    · obtain ⟨hle, hstop, heq, hne⟩ := ih (c + 1)
      rw [runStop, if_pos hc]
      refine ⟨by omega, by omega, fun x hx hlt => ?_, fun hlt => hne (by omega)⟩
      rcases Nat.eq_or_lt_of_le hx with rfl | hx
      · exact hc
      · exact heq x hx hlt
    · rw [runStop, if_neg hc]
      exact ⟨le_rfl, by omega, fun x hx hlt => by omega, fun _ => hc⟩

end Around

end Sp2Module
