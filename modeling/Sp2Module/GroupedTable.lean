import Mathlib.Data.Finset.Card
import Mathlib.Data.Finset.Range
import Mathlib.Data.List.Basic

/-!
# Tables with the entries of a class together

A table has the entries of each class behind those of the classes below it, and an entry is written
behind the last one of its class. Nothing is moved for it: where there are entries of a higher
class, the first of them is lost, and a cell further on stays empty. So the table holds what has
been added exactly when the classes have come in their order.
-/

namespace Sp2Module.GroupedTable

variable {α κ : Type*} {empty x : α} {cells : ℕ → α} {rank : κ → ℕ} {k : κ} {n N off : ℕ}

def write (off : ℕ) (x : α) (cells : ℕ → α) : ℕ → α := fun i => if i = off then x else cells i

theorem write_self : write off x cells off = x := if_pos rfl

theorem write_of_ne {i : ℕ} (h : i ≠ off) : write off x cells i = cells i := if_neg h

/-- The first cells, when one behind them is written. -/
theorem map_range_write_of_le (hoff : n ≤ off) :
    (List.range n).map (write off x cells) = (List.range n).map cells :=
  List.map_congr_left fun _ hi => write_of_ne ((List.mem_range.mp hi).trans_le hoff).ne

/-- The first cells with the next one, when that is written. -/
theorem map_range_succ_write :
    (List.range (n + 1)).map (write n x cells) = (List.range n).map cells ++ [x] := by
  rw [List.range_succ, List.map_append, List.map_singleton, write_self,
    map_range_write_of_le le_rfl]

/-! ### Cells that are not empty -/

section Occupied

variable [DecidableEq α]

/-- How many of the first cells are not empty. -/
def occupied (empty : α) (N : ℕ) (cells : ℕ → α) : ℕ :=
  ((Finset.range N).filter fun i => cells i ≠ empty).card

theorem occupied_write_le : occupied empty N (write off x cells) ≤ occupied empty N cells + 1 := by
  refine (Finset.card_le_card ?_).trans (Finset.card_insert_le off _)
  intro i hi
  obtain ⟨hlt, hne⟩ := Finset.mem_filter.mp hi
  by_cases hoff : i = off
  · exact Finset.mem_insert.mpr (.inl hoff)
  · rw [write_of_ne hoff] at hne
    exact Finset.mem_insert.mpr (.inr (Finset.mem_filter.mpr ⟨hlt, hne⟩))

/-- A cell that was not empty is not counted again. -/
theorem occupied_write_of_ne (h : cells off ≠ empty) :
    occupied empty N (write off x cells) ≤ occupied empty N cells := by
  refine Finset.card_le_card fun i hi => ?_
  obtain ⟨hlt, hne⟩ := Finset.mem_filter.mp hi
  refine Finset.mem_filter.mpr ⟨hlt, ?_⟩
  by_cases hoff : i = off
  · rw [hoff]
    exact h
  · rw [write_of_ne hoff] at hne
    exact hne

theorem le_occupied (hn : n ≤ N) (hfull : ∀ i < n, cells i ≠ empty) :
    n ≤ occupied empty N cells := by
  have hsub : Finset.range n ⊆ (Finset.range N).filter fun i => cells i ≠ empty := by
    intro i hi
    have hlt := Finset.mem_range.mp hi
    exact Finset.mem_filter.mpr ⟨Finset.mem_range.mpr (hlt.trans_le hn), hfull i hlt⟩
  have hcard := Finset.card_le_card hsub
  rwa [Finset.card_range] at hcard

end Occupied

/-! ### Tables -/

/-- The cells, how many are in use, the class of each, and where an entry of a class is written. -/
structure Table (α κ : Type*) where
  cells : ℕ → α
  size : ℕ
  classAt : ℕ → κ
  place : κ → ℕ

namespace Table

variable {T T' : Table α κ} {l : List (α × κ)}

/-- The entries up to the size. -/
def held (T : Table α κ) : List (α × κ) := (List.range T.size).map fun i => (T.cells i, T.classAt i)

/-- An entry of a class is written behind the classes up to it. -/
structure Grouped (rank : κ → ℕ) (T : Table α κ) : Prop where
  place_le : ∀ k, T.place k ≤ T.size
  lt_place_iff : ∀ k, ∀ i < T.size, i < T.place k ↔ rank (T.classAt i) ≤ rank k

/-- An entry is added; behind all of the others it leaves them as they are. -/
structure Adds (T T' : Table α κ) (x : α) (k : κ) : Prop where
  cells : T'.cells = write (T.place k) x T.cells
  size : T'.size = T.size + 1
  same : T.place k = T.size → ∀ i < T.size, T'.classAt i = T.classAt i
  last : T.place k = T.size → T'.classAt T.size = k

/-- A table and what has been added to it. -/
inductive Filled (rank : κ → ℕ) (empty : α) : Table α κ → List (α × κ) → Prop
  | nil {T : Table α κ} (hcells : ∀ i, T.cells i = empty) (hsize : T.size = 0) :
      Filled rank empty T []
  | add {T T' : Table α κ} {l : List (α × κ)} {x : α} {k : κ} (hfilled : Filled rank empty T l)
      (hgrouped : T.Grouped rank) (hadds : Adds T T' x k) : Filled rank empty T' (l ++ [(x, k)])

/-- The classes have come in their order. -/
def Sorted (rank : κ → ℕ) (l : List (α × κ)) : Prop :=
  l.Pairwise fun p q => rank p.2 ≤ rank q.2

theorem sorted_snoc : Sorted rank (l ++ [(x, k)]) ↔
    Sorted rank l ∧ ∀ p ∈ l, rank p.2 ≤ rank k := by
  rw [Sorted, List.pairwise_append]
  simp only [List.pairwise_singleton, true_and, List.mem_singleton, forall_eq, Sorted]

theorem mem_held {i : ℕ} (h : i < T.size) : (T.cells i, T.classAt i) ∈ T.held :=
  List.mem_map.mpr ⟨i, List.mem_range.mpr h, rfl⟩

theorem Grouped.place_eq_size (h : T.Grouped rank) (hle : ∀ p ∈ T.held, rank p.2 ≤ rank k) :
    T.place k = T.size := by
  refine (h.place_le k).antisymm (Nat.le_of_not_lt fun hlt => ?_)
  have hmem := hle _ (mem_held hlt)
  exact lt_irrefl _ ((h.lt_place_iff k _ hlt).mpr hmem)

theorem Grouped.place_lt_size (h : T.Grouped rank) {p : α × κ} (hp : p ∈ T.held)
    (hlt : rank k < rank p.2) : T.place k < T.size := by
  obtain ⟨i, hi, rfl⟩ := List.mem_map.mp hp
  have hsize := List.mem_range.mp hi
  refine lt_of_le_of_lt (Nat.le_of_not_lt fun hplace => ?_) hsize
  exact absurd ((h.lt_place_iff k i hsize).mp hplace) (not_le_of_gt hlt)

/-- An entry behind all of the others. -/
theorem Adds.held_eq (h : Adds T T' x k) (hlast : T.place k = T.size) :
    T'.held = T.held ++ [(x, k)] := by
  have hlastEntry : (T'.cells T.size, T'.classAt T.size) = (x, k) := by
    rw [h.cells, hlast, write_self, h.last hlast]
  rw [held, h.size, List.range_succ, List.map_append, List.map_singleton, hlastEntry]
  congr 1
  apply List.map_congr_left
  intro i hi
  have hlt := List.mem_range.mp hi
  rw [h.cells, hlast, write_of_ne hlt.ne, h.same hlast i hlt]

/-- In the order of their classes the entries are held one after the other. -/
theorem Filled.held_of_sorted (h : Filled rank empty T l) (hsorted : Sorted rank l) :
    T.held = l := by
  induction h with
  | nil hcells hsize => rw [held, hsize, List.range_zero, List.map_nil]
  | add hfilled hgrouped hadds ih =>
    obtain ⟨hrest, hle⟩ := sorted_snoc.mp hsorted
    have hheld := ih hrest
    rw [← hheld] at hle
    rw [hadds.held_eq (hgrouped.place_eq_size hle), hheld]

section Occupied

variable [DecidableEq α]

theorem Filled.occupied_le (h : Filled rank empty T l) : occupied empty N T.cells ≤ T.size := by
  induction h with
  | nil hcells hsize =>
    rw [hsize, Nat.le_zero, occupied, Finset.card_eq_zero, Finset.filter_eq_empty_iff]
    exact fun i _ hne => hne (hcells i)
  | add hfilled hgrouped hadds ih =>
    rw [hadds.cells, hadds.size]
    exact occupied_write_le.trans (Nat.succ_le_succ ih)

/-- Out of order an entry has been lost. -/
theorem Filled.occupied_lt (h : Filled rank empty T l) (hne : ∀ p ∈ l, p.1 ≠ empty)
    (hsorted : ¬ Sorted rank l) : occupied empty N T.cells < T.size := by
  induction h with
  | nil => exact absurd List.Pairwise.nil hsorted
  | @add T T' l x k hfilled hgrouped hadds ih =>
    have hold : ∀ p ∈ l, p.1 ≠ empty := fun p hp => hne p (List.mem_append_left _ hp)
    rw [hadds.cells, hadds.size]
    by_cases hrest : Sorted rank l
    · -- the first entry out of order is written over one that is held
      have hheld := hfilled.held_of_sorted hrest
      have hhigher : ¬ ∀ p ∈ l, rank p.2 ≤ rank k :=
        fun hle => hsorted (sorted_snoc.mpr ⟨hrest, hle⟩)
      push Not at hhigher
      obtain ⟨p, hp, hlt⟩ := hhigher
      have hplace := hgrouped.place_lt_size (by rwa [hheld]) hlt
      have hmem := mem_held hplace
      rw [hheld] at hmem
      exact Nat.lt_succ_of_le ((occupied_write_of_ne (hold _ hmem)).trans hfilled.occupied_le)
    · exact lt_of_le_of_lt occupied_write_le (Nat.succ_lt_succ (ih hold hrest))

/-- What is held is what has been added, with nothing empty, exactly when the classes have come in
their order. -/
theorem Filled.held_eq_iff (h : Filled rank empty T l) (hne : ∀ p ∈ l, p.1 ≠ empty) :
    T.held = l ↔ Sorted rank l := by
  refine ⟨fun hheld => by_contra fun hsorted => ?_, h.held_of_sorted⟩
  have hlt := h.occupied_lt (N := T.size) hne hsorted
  refine absurd (le_occupied le_rfl fun i hi => ?_) (not_le_of_gt hlt)
  have hmem := mem_held hi
  rw [hheld] at hmem
  exact hne _ hmem

end Occupied

end Table

end Sp2Module.GroupedTable
