import Mathlib.Data.List.DropRight

/-!
# Walks through a tree of directories

A walk stays where it is, goes up, or goes down to a name; up from the root is the root. Where it
ends depends on where it starts only through the steps up that no step down before them cancels.
-/

namespace Sp2Module.Walk

inductive Step (α : Type*) where
  | stay
  | up
  | down (name : α)
deriving DecidableEq, Repr

variable {α : Type*}

def step (dir : List α) : Step α → List α
  | .stay => dir
  | .up => dir.dropLast
  | .down name => dir ++ [name]

def walk (dir : List α) (steps : List (Step α)) : List α := steps.foldl step dir

theorem walk_append (dir : List α) (steps steps' : List (Step α)) :
    walk dir (steps ++ steps') = walk (walk dir steps) steps' :=
  List.foldl_append

/-! ### What is left of a walk -/

/-- So many steps up, and then down along the names. -/
structure Net (α : Type*) where
  ups : ℕ
  names : List α
deriving DecidableEq, Repr

namespace Net

def step : Net α → Step α → Net α
  | r, .stay => r
  | ⟨ups, []⟩, .up => ⟨ups + 1, []⟩
  | ⟨ups, name :: names⟩, .up => ⟨ups, (name :: names).dropLast⟩
  | ⟨ups, names⟩, .down name => ⟨ups, names ++ [name]⟩

def follow (dir : List α) (r : Net α) : List α := dir.rdrop r.ups ++ r.names

/-- Up to one of the directories above, back down the way it came, and on to one more name. -/
def StaysIn (dir : List α) (r : Net α) : Prop := ∃ name, r.names = dir.rtake r.ups ++ [name]

theorem dropLast_rdrop (dir : List α) (n : ℕ) : (dir.rdrop n).dropLast = dir.rdrop (n + 1) := by
  rw [List.rdrop, List.rdrop, List.dropLast_eq_take, List.take_take, List.length_take]
  congr 1
  omega

theorem follow_step (dir : List α) (r : Net α) (s : Step α) :
    follow dir (r.step s) = Walk.step (follow dir r) s := by
  obtain ⟨ups, names⟩ := r
  cases s with
  | stay => rfl
  | down name =>
    simp only [step, follow, Walk.step, List.append_assoc]
  | up =>
    cases names with
    | nil => simp only [step, follow, Walk.step, List.append_nil, dropLast_rdrop]
    | cons name names =>
      exact (List.dropLast_append_of_ne_nil (List.cons_ne_nil name names)).symm

theorem follow_eq_append_iff {dir : List α} {r : Net α} {name : α} :
    follow dir r = dir ++ [name] ↔ r.names = dir.rtake r.ups ++ [name] := by
  have hdir : dir.rdrop r.ups ++ (dir.rtake r.ups ++ [name]) = dir ++ [name] := by
    rw [← List.append_assoc]
    exact congrArg (· ++ [name]) (List.take_append_drop _ _)
  rw [follow, ← hdir, List.append_right_inj]

end Net

def cancel (steps : List (Step α)) : Net α := steps.foldl Net.step ⟨0, []⟩

theorem walk_eq_follow (dir : List α) (steps : List (Step α)) :
    walk dir steps = (cancel steps).follow dir := by
  have hstart : Net.follow dir ⟨0, []⟩ = dir := by
    rw [Net.follow, List.rdrop_zero, List.append_nil]
  rw [walk, cancel, ← List.foldl_hom (Net.follow dir) fun r s => (Net.follow_step dir r s).symm,
    hstart]

theorem walk_eq_append_iff {dir : List α} {steps : List (Step α)} :
    (∃ name, walk dir steps = dir ++ [name]) ↔ (cancel steps).StaysIn dir := by
  simp only [walk_eq_follow, Net.follow_eq_append_iff, Net.StaysIn]

end Sp2Module.Walk
