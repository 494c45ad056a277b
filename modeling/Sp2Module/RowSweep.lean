import Mathlib.Algebra.BigOperators.Fin
import Mathlib.Algebra.BigOperators.Group.Finset.Basic
import Mathlib.Algebra.Module.BigOperators
import Mathlib.Data.List.FinRange

/-!
# Affine maps computed row by row in place

`affine A b M` has the rows `b i + ∑ j, A i j • M j`. A sweep stores each of them over the row it
replaces, so that a row sees the new values of the rows before it. The two agree exactly when the
part of `A` below the diagonal does not see the change of the rows before.
-/

namespace Sp2Module

open Finset

variable {n : ℕ} {R V : Type*} [Ring R] [AddCommGroup V] [Module R V]

def affine (A : Fin n → Fin n → R) (b M : Fin n → V) (i : Fin n) : V := b i + ∑ j, A i j • M j

def sweepStep (A : Fin n → Fin n → R) (b M : Fin n → V) (i : Fin n) : Fin n → V :=
  Function.update M i (affine A b M i)

/-- The rows are replaced one after another. -/
def sweep (A : Fin n → Fin n → R) (b M : Fin n → V) : Fin n → V :=
  (List.finRange n).foldl (sweepStep A b) M

variable {A : Fin n → Fin n → R} {b M : Fin n → V} {i j : Fin n} {is front back : List (Fin n)}

theorem foldl_sweepStep_of_notMem (h : j ∉ is) : is.foldl (sweepStep A b) M j = M j := by
  induction is generalizing M with
  | nil => rfl
  | cons i is ih =>
    rw [List.mem_cons, not_or] at h
    rw [List.foldl_cons, ih h.2, sweepStep, Function.update_of_ne h.1]

/-- A row is the affine value of the rows that its step has seen. -/
theorem foldl_sweepStep_of_split (h : i ∉ back) :
    (front ++ i :: back).foldl (sweepStep A b) M i =
      affine A b (front.foldl (sweepStep A b) M) i := by
  rw [List.foldl_append, List.foldl_cons, foldl_sweepStep_of_notMem h, sweepStep,
    Function.update_self]

/-- A row of a sweep sees the new values of the rows before it and the old ones of the others. -/
theorem sweep_apply (A : Fin n → Fin n → R) (b M : Fin n → V) (i : Fin n) :
    sweep A b M i = affine A b (fun j => if j < i then sweep A b M j else M j) i := by
  obtain ⟨front, back, hsplit⟩ := List.append_of_mem (List.mem_finRange i)
  have hsorted := List.pairwise_lt_finRange n
  rw [hsplit, List.pairwise_append, List.pairwise_cons] at hsorted
  obtain ⟨-, ⟨hback, -⟩, hfront⟩ := hsorted
  have hseen : front.foldl (sweepStep A b) M = fun j => if j < i then sweep A b M j else M j := by
    funext j
    split_ifs with hj
    · have hlater : j ∉ i :: back := by
        rw [List.mem_cons, not_or]
        exact ⟨hj.ne, fun hmem => absurd (hback j hmem) hj.not_gt⟩
      rw [sweep, hsplit, List.foldl_append, foldl_sweepStep_of_notMem hlater]
    · exact foldl_sweepStep_of_notMem fun hmem => hj (hfront j hmem i List.mem_cons_self)
  rw [← hseen]
  conv_lhs => rw [sweep, hsplit]
  exact foldl_sweepStep_of_split fun hmem => lt_irrefl i (hback i hmem)

/-- What the rows before `i` add to row `i` by having been replaced. -/
def carried (A : Fin n → Fin n → R) (b M : Fin n → V) (i : Fin n) : V :=
  ∑ j, if j < i then A i j • (affine A b M j - M j) else 0

/-- Where the rows before have their affine values, the sweep is off by what they carry over. -/
theorem affine_of_before (h : ∀ j < i, sweep A b M j = affine A b M j) :
    sweep A b M i = affine A b M i + carried A b M i := by
  rw [sweep_apply, affine, affine, carried, add_assoc, ← sum_add_distrib]
  congr 1
  apply sum_congr rfl
  intro j _
  split_ifs with hj
  · rw [h j hj, smul_sub, add_sub_cancel]
  · rw [add_zero]

/-- A sweep computes the affine map exactly when nothing is carried over. -/
theorem sweep_eq_affine_iff : sweep A b M = affine A b M ↔ ∀ i, carried A b M i = 0 := by
  constructor
  · intro h i
    have hi := affine_of_before (A := A) (b := b) (M := M) (i := i) fun j _ => congrFun h j
    rwa [h, left_eq_add] at hi
  · intro h
    funext i
    induction i using WellFoundedLT.induction with
    | ind i ih => rw [affine_of_before ih, h i, add_zero]

end Sp2Module
