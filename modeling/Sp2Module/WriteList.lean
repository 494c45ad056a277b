import Mathlib.Data.List.Basic

/-!
# Words written one after the other

What is done to the words of a memory, one after the other from an address on: a word is written, or
left as it is, or changed. What has been written can be read back part by part, and records of one
length as the list of them.
-/

namespace Sp2Module.WriteList

variable {α β γ : Type*} {old mem mem' : ℕ → α} {b n : ℕ} {f : α → α} {ws vs : List (α → α)}

def put (x : α) : α → α := fun _ => x

/-- The memory when the words from 0 on have been written. -/
def perform (ws : List (α → α)) (old : ℕ → α) : ℕ → α := fun i => (ws[i]?.getD id) (old i)

/-- The memory when the words from `b` on have been written. -/
def performAt (b : ℕ) (ws : List (α → α)) (old : ℕ → α) : ℕ → α := fun i =>
  if b ≤ i then (ws[i - b]?.getD id) (old i) else old i

/-- From `b` on the memory is what the writes make of the old one. -/
def Written (old mem : ℕ → α) (b : ℕ) (ws : List (α → α)) : Prop :=
  ∀ i f, ws[i]? = some f → mem (b + i) = f (old (b + i))

theorem written_perform (ws : List (α → α)) (old : ℕ → α) : Written old (perform ws old) 0 ws := by
  intro i f h
  rw [Nat.zero_add, perform, h, Option.getD_some]

theorem written_performAt (b : ℕ) (ws : List (α → α)) (old : ℕ → α) :
    Written old (performAt b ws old) b ws := by
  intro i f h
  rw [performAt, if_pos (Nat.le_add_right b i), Nat.add_sub_cancel_left, h, Option.getD_some]

theorem performAt_of_lt {i : ℕ} (h : i < b) : performAt b ws old i = old i :=
  if_neg (Nat.not_le.mpr h)

theorem Written.congr (h : Written old mem b ws)
    (heq : ∀ i, b ≤ i → i < b + ws.length → mem' i = mem i) : Written old mem' b ws := by
  intro i f hf
  have hi : i < ws.length := (List.getElem?_eq_some_iff.mp hf).1
  rw [heq (b + i) (Nat.le_add_right b i) (Nat.add_lt_add_left hi b)]
  exact h i f hf

theorem written_nil : Written old mem b [] := fun _ _ h => nomatch h

theorem written_cons :
    Written old mem b (f :: ws) ↔ mem b = f (old b) ∧ Written old mem (b + 1) ws := by
  constructor
  · intro h
    refine ⟨h 0 f rfl, fun i g hg => ?_⟩
    rw [Nat.add_assoc, Nat.add_comm 1 i]
    exact h (i + 1) g hg
  · rintro ⟨hfirst, hrest⟩ i g hg
    cases i with
    | zero =>
      obtain rfl := Option.some.inj hg
      exact hfirst
    | succ i =>
      rw [Nat.add_comm i 1, ← Nat.add_assoc]
      exact hrest i g hg

theorem written_append : Written old mem b (ws ++ vs) ↔
    Written old mem b ws ∧ Written old mem (b + ws.length) vs := by
  induction ws generalizing b with
  | nil => exact ⟨fun h => ⟨written_nil, h⟩, fun h => h.2⟩
  | cons f ws ih =>
    rw [List.cons_append, written_cons, written_cons, ih, and_assoc, List.length_cons,
      Nat.add_comm ws.length 1, ← Nat.add_assoc]

/-- Records of one length, each of which can be read where it has been written. -/
theorem Written.flatMap {l : List γ} {emit : γ → List (α → α)} {read : ℕ → β} {value : γ → β}
    (hlen : ∀ x, (emit x).length = n)
    (hread : ∀ x ∈ l, ∀ b, Written old mem b (emit x) → read b = value x)
    (h : Written old mem b (l.flatMap emit)) :
    (List.range l.length).map (fun i => read (b + n * i)) = l.map value := by
  induction l generalizing b with
  | nil => rfl
  | cons x l ih =>
    rw [List.flatMap_cons, written_append, hlen] at h
    obtain ⟨hfirst, hrest⟩ := h
    have hnext := ih (fun y hy => hread y (List.mem_cons_of_mem x hy)) hrest
    have hx : read (b + n * 0) = value x := hread x List.mem_cons_self b hfirst
    rw [List.length_cons, List.range_succ_eq_map, List.map_cons, List.map_cons, hx, ← hnext,
      List.map_map]
    congr 2
    funext i
    simp only [Function.comp_apply, Nat.mul_succ, Nat.add_assoc, Nat.add_comm n]

/-- Words that have been put one after the other. -/
theorem Written.map_put {l : List α} (h : Written old mem b (l.map put)) :
    (List.range l.length).map (fun i => mem (b + i)) = l := by
  rw [List.map_eq_flatMap] at h
  have hread : ∀ x ∈ l, ∀ b, Written old mem b [put x] → mem b = id x :=
    fun x _ b h => (written_cons.mp h).1
  have hlen : ∀ x : α, [put x].length = 1 := fun _ => rfl
  have hlist := Written.flatMap hlen hread h
  simp only [Nat.one_mul, List.map_id] at hlist
  exact hlist

end Sp2Module.WriteList
