import Mathlib.Data.List.Basic
import Mathlib.Algebra.Order.Ring.Nat
import Mathlib.Tactic.Ring

/-!
# Byte strings

Little-endian words, consecutive pieces of a list, and the effect of writing a list over a part
of another. Overwriting never changes the length, and overwrites of disjoint ranges commute.
-/

namespace Sp2Module

abbrev Bytes := List UInt8

/-- The `w` low bytes of `n`, least significant first. -/
def leBytes : ℕ → ℕ → Bytes
  | 0, _ => []
  | w + 1, n => UInt8.ofNat n :: leBytes w (n / 256)

def leValue : Bytes → ℕ
  | [] => 0
  | b :: bs => b.toNat + 256 * leValue bs

@[simp] theorem length_leBytes (w n : ℕ) : (leBytes w n).length = w := by
  induction w generalizing n with
  | zero => rfl
  | succ w ih => simp only [leBytes, List.length_cons, ih]

theorem leValue_leBytes (w n : ℕ) : leValue (leBytes w n) = n % 256 ^ w := by
  induction w generalizing n with
  | zero => simp only [leBytes, leValue, pow_zero, Nat.mod_one]
  | succ w ih =>
    rw [leBytes, leValue, ih, UInt8.toNat_ofNat', pow_succ' 256 w, Nat.mod_mul]

theorem leValue_leBytes_of_lt {w n : ℕ} (h : n < 256 ^ w) : leValue (leBytes w n) = n := by
  rw [leValue_leBytes, Nat.mod_eq_of_lt h]

theorem leValue_lt (l : Bytes) : leValue l < 256 ^ l.length := by
  induction l with
  | nil => simp [leValue]
  | cons b bs ih =>
    have hb : b.toNat < 256 := b.toNat_lt
    simp only [leValue, List.length_cons, pow_succ]
    omega

theorem leBytes_leValue (l : Bytes) : leBytes l.length (leValue l) = l := by
  induction l with
  | nil => rfl
  | cons b bs ih =>
    have hb : b.toNat < 256 := b.toNat_lt
    have hdiv : (b.toNat + 256 * leValue bs) / 256 = leValue bs := by omega
    simp only [List.length_cons, leBytes, leValue, hdiv, ih, List.cons.injEq, and_true]
    rw [← UInt8.toNat_inj, UInt8.toNat_ofNat']
    omega

section Slices

variable {α : Type*}

/-- The elements of `l` from index `off`, at most `n` of them. -/
def slice (l : List α) (off n : ℕ) : List α := (l.drop off).take n

theorem length_slice (l : List α) (off n : ℕ) :
    (slice l off n).length = min n (l.length - off) := by
  simp [slice]

theorem slice_append_right (l r : List α) (off n : ℕ) :
    slice (l ++ r) (l.length + off) n = slice r off n := by
  rw [slice, slice, ← List.drop_drop, List.drop_append_length]

theorem slice_append_left {l r : List α} {off n : ℕ} (h : off + n ≤ l.length) :
    slice (l ++ r) off n = slice l off n := by
  rw [slice, List.drop_append_of_le_length (by omega), List.take_append_of_le_length]
  · rfl
  · rw [List.length_drop]
    omega

@[simp] theorem slice_zero_length (l : List α) : slice l 0 l.length = l := by simp [slice]

theorem slice_middle {l w r : List α} {off n : ℕ} (hoff : l.length = off) (hn : w.length = n) :
    slice (l ++ (w ++ r)) off n = w := by
  rw [slice, ← hoff, List.drop_left, ← hn, List.take_left]

theorem slice_replicate {off n k : ℕ} (a : α) (h : off + k ≤ n) :
    slice (List.replicate n a) off k = List.replicate k a := by
  rw [slice, List.drop_replicate, List.take_replicate, Nat.min_eq_left (by omega)]

theorem getElem?_slice (l : List α) (off n i : ℕ) :
    (slice l off n)[i]? = if i < n then l[off + i]? else none := by
  simp only [slice, List.getElem?_take, List.getElem?_drop]

theorem slice_slice {l : List α} {off n k w : ℕ} (h : k + w ≤ n) :
    slice (slice l off n) k w = slice l (off + k) w := by
  apply List.ext_getElem?
  intro i
  simp only [getElem?_slice]
  split_ifs with hw hn
  · rw [Nat.add_assoc]
  · omega
  · rfl

/-- Consecutive pieces of `l` of the given lengths, the first one starting at `off`. -/
def pieces (l : List α) : ℕ → List ℕ → List (List α)
  | _, [] => []
  | off, n :: ns => slice l off n :: pieces l (off + n) ns

@[simp] theorem length_pieces (l : List α) (off : ℕ) (ns : List ℕ) :
    (pieces l off ns).length = ns.length := by
  induction ns generalizing off with
  | nil => rfl
  | cons n ns ih => simp only [pieces, List.length_cons, ih]

theorem flatten_pieces (l : List α) (off : ℕ) (ns : List ℕ) :
    (pieces l off ns).flatten = slice l off ns.sum := by
  induction ns generalizing off with
  | nil => simp [pieces, slice]
  | cons n ns ih =>
    simp only [pieces, List.flatten_cons, ih, List.sum_cons, slice]
    rw [Nat.add_comm off n, ← List.drop_drop, List.drop_drop, Nat.add_comm n off,
      ← List.drop_drop, ← List.take_add]

theorem pieces_append_right (l r : List α) (off : ℕ) (ns : List ℕ) :
    pieces (l ++ r) (l.length + off) ns = pieces r off ns := by
  induction ns generalizing off with
  | nil => rfl
  | cons n ns ih =>
    simp only [pieces, slice_append_right]
    rw [Nat.add_assoc, ih]

theorem pieces_drop (l : List α) (off k : ℕ) (ns : List ℕ) :
    pieces (l.drop off) k ns = pieces l (off + k) ns := by
  induction ns generalizing k with
  | nil => rfl
  | cons n ns ih => simp only [pieces, slice, List.drop_drop, ih, Nat.add_assoc]

theorem pieces_flatten_append (ls : List (List α)) (r : List α) :
    pieces (ls.flatten ++ r) 0 (ls.map List.length) = ls := by
  induction ls with
  | nil => rfl
  | cons l ls ih =>
    have h := pieces_append_right l (ls.flatten ++ r) 0 (ls.map List.length)
    simp only [Nat.add_zero] at h
    simp only [List.map_cons, List.flatten_cons, List.append_assoc, pieces, Nat.zero_add, h, ih]
    simp [slice]

/-- Cutting a list at the boundaries of `ls` gives `ls` exactly when the list starts with the
concatenation of `ls`. -/
theorem pieces_eq_iff (ls : List (List α)) (l : List α) :
    pieces l 0 (ls.map List.length) = ls ↔ l.take ls.flatten.length = ls.flatten := by
  constructor
  · intro h
    have hf := flatten_pieces l 0 (ls.map List.length)
    rw [h] at hf
    rw [List.length_flatten]
    simpa [slice] using hf.symm
  · intro h
    have hl : ls.flatten ++ l.drop ls.flatten.length = l := by
      nth_rewrite 1 [← h]
      exact List.take_append_drop _ _
    rw [← hl]
    exact pieces_flatten_append ls _

/-- A list equals itself shifted behind a filler exactly when it consists of the filler. -/
theorem take_replicate_append_eq_iff {g : ℕ} (hg : 0 < g) (a : α) (l : List α) :
    (List.replicate g a ++ l).take l.length = l ↔ ∀ b ∈ l, b = a := by
  constructor
  · intro h
    have hall : ∀ i, ∀ hi : i < l.length, l[i] = a := by
      intro i
      induction i using Nat.strong_induction_on with
      | _ i ih =>
        intro hi
        have hget := congrArg (fun k => k[i]?) h
        simp only [List.getElem?_take_of_lt hi, List.getElem?_eq_getElem hi] at hget
        rcases Nat.lt_or_ge i g with hlt | hge
        · rw [List.getElem?_append_left (by simpa using hlt), List.getElem?_replicate,
            if_pos hlt] at hget
          exact (Option.some.inj hget).symm
        · rw [List.getElem?_append_right (by simpa using hge), List.length_replicate,
            List.getElem?_eq_getElem (by omega)] at hget
          rw [← Option.some.inj hget]
          exact ih (i - g) (by omega) (by omega)
    intro b hb
    obtain ⟨i, hi, rfl⟩ := List.mem_iff_getElem.mp hb
    exact hall i hi
  · intro h
    have hl : l = List.replicate l.length a := List.eq_replicate_of_mem h
    rw [hl, List.length_replicate, List.replicate_append_replicate, List.take_replicate,
      Nat.min_eq_left (by omega)]

end Slices

section Overwrite

variable {α : Type*}

/-- `d` written over `l` from index `off`; what falls beyond the end of `l` is dropped. -/
def overwrite (l : List α) (off : ℕ) (d : List α) : List α :=
  l.mapIdx fun i a => if off ≤ i then (d[i - off]?).getD a else a

@[simp] theorem length_overwrite (l : List α) (off : ℕ) (d : List α) :
    (overwrite l off d).length = l.length := by
  simp only [overwrite, List.length_mapIdx]

theorem getElem?_overwrite (l : List α) (off : ℕ) (d : List α) (i : ℕ) :
    (overwrite l off d)[i]? =
      l[i]?.map fun a => if off ≤ i then (d[i - off]?).getD a else a := by
  simp only [overwrite, List.getElem?_mapIdx]

theorem getElem?_overwrite_outside {l : List α} {off : ℕ} {d : List α} {i : ℕ}
    (h : i < off ∨ off + d.length ≤ i) : (overwrite l off d)[i]? = l[i]? := by
  rw [getElem?_overwrite]
  by_cases hle : off ≤ i
  · have hnone : d[i - off]? = none := List.getElem?_eq_none (by omega)
    simp [hle, hnone]
  · simp [hle]

theorem getElem?_overwrite_inside {l : List α} {off : ℕ} {d : List α} {i : ℕ}
    (hle : off ≤ i) (hlt : i < off + d.length) (hl : i < l.length) :
    (overwrite l off d)[i]? = d[i - off]? := by
  rw [getElem?_overwrite, List.getElem?_eq_getElem hl,
    List.getElem?_eq_getElem (show i - off < d.length by omega)]
  simp [hle]

@[simp] theorem overwrite_nil (l : List α) (off : ℕ) : overwrite l off [] = l := by
  apply List.ext_getElem?
  intro i
  rw [getElem?_overwrite]
  simp

/-- Where the whole of `d` fits, overwriting cuts `l` in three. -/
theorem overwrite_eq_append {l : List α} {off : ℕ} {d : List α} (h : off + d.length ≤ l.length) :
    overwrite l off d = l.take off ++ d ++ l.drop (off + d.length) := by
  apply List.ext_getElem?
  intro i
  have hlen : (l.take off).length = off := by rw [List.length_take]; omega
  rw [List.append_assoc]
  rcases Nat.lt_or_ge i off with hlt | hge
  · rw [getElem?_overwrite_outside (Or.inl hlt), List.getElem?_append_left (by omega),
      List.getElem?_take_of_lt hlt]
  · rw [List.getElem?_append_right (by omega), hlen]
    rcases Nat.lt_or_ge i (off + d.length) with hin | hout
    · rw [getElem?_overwrite_inside hge hin (by omega), List.getElem?_append_left (by omega)]
    · rw [getElem?_overwrite_outside (Or.inr hout), List.getElem?_append_right (by omega),
        List.getElem?_drop]
      congr 1
      omega

theorem overwrite_self {l : List α} {off n : ℕ} (h : off + n ≤ l.length) :
    overwrite l off (slice l off n) = l := by
  have hlen : (slice l off n).length = n := by rw [length_slice]; omega
  rw [overwrite_eq_append (by omega), hlen, slice, List.append_assoc, ← List.drop_drop,
    List.take_append_drop, List.take_append_drop]

theorem slice_overwrite_same {l : List α} {off : ℕ} {d : List α} (h : off + d.length ≤ l.length) :
    slice (overwrite l off d) off d.length = d := by
  have hlen : (l.take off).length = off := by rw [List.length_take]; omega
  rw [overwrite_eq_append h, List.append_assoc]
  have hs := slice_append_right (l.take off) (d ++ l.drop (off + d.length)) 0 d.length
  rw [hlen, Nat.add_zero] at hs
  rw [hs]
  simp [slice]

theorem slice_overwrite_disjoint {l : List α} {off off' n : ℕ} {d : List α}
    (h : off' + n ≤ off ∨ off + d.length ≤ off') :
    slice (overwrite l off d) off' n = slice l off' n := by
  apply List.ext_getElem?
  intro i
  rw [getElem?_slice, getElem?_slice]
  split_ifs with hi
  · exact getElem?_overwrite_outside (by omega)
  · rfl

/-- `old`, which stands at `b`, with what `d` at `a` covers of it replaced. -/
def replaceRange (old : List α) (b a : ℕ) (d : List α) : List α :=
  old.mapIdx fun k x => if a ≤ b + k then (d[b + k - a]?).getD x else x

theorem getElem?_replaceRange (old : List α) (b a : ℕ) (d : List α) (k : ℕ) :
    (replaceRange old b a d)[k]? =
      old[k]?.map fun x => if a ≤ b + k then (d[b + k - a]?).getD x else x := by
  simp only [replaceRange, List.getElem?_mapIdx]

theorem replaceRange_add_left (old : List α) (b a c : ℕ) (d : List α) :
    replaceRange old (c + b) (c + a) d = replaceRange old b a d := by
  apply List.ext_getElem?
  intro k
  rw [getElem?_replaceRange, getElem?_replaceRange, show c + b + k - (c + a) = b + k - a by omega]
  congr 1
  funext x
  simp only [Nat.add_assoc, Nat.add_le_add_iff_left]

theorem replaceRange_of_disjoint {old : List α} {b a : ℕ} {d : List α}
    (h : ∀ k < old.length, b + k < a ∨ a + d.length ≤ b + k) : replaceRange old b a d = old := by
  apply List.ext_getElem?
  intro k
  rw [getElem?_replaceRange]
  rcases Nat.lt_or_ge k old.length with hlt | hge
  · rcases h k hlt with hbefore | hbehind
    · simp [Nat.not_le.mpr hbefore]
    · have hnone : d[b + k - a]? = none := List.getElem?_eq_none (by omega)
      simp [hnone]
  · rw [List.getElem?_eq_none hge, Option.map_none]

/-- What a slice reads of an overwritten list. -/
theorem slice_overwrite (l : List α) (off off' n : ℕ) (d : List α) :
    slice (overwrite l off d) off' n = replaceRange (slice l off' n) off' off d := by
  apply List.ext_getElem?
  intro k
  rw [getElem?_replaceRange, getElem?_slice, getElem?_slice, getElem?_overwrite]
  split_ifs <;> rfl

/-- Overwrites of disjoint ranges commute, also where a range runs beyond the end. -/
theorem overwrite_comm (l : List α) {off off' : ℕ} {d d' : List α}
    (h : ∀ i, off ≤ i → i < off + d.length → ¬ (off' ≤ i ∧ i < off' + d'.length)) :
    overwrite (overwrite l off d) off' d' = overwrite (overwrite l off' d') off d := by
  apply List.ext_getElem?
  intro i
  have hi := h i
  by_cases hd : off ≤ i ∧ i < off + d.length
  · have hout : i < off' ∨ off' + d'.length ≤ i := by omega
    rw [getElem?_overwrite_outside hout, getElem?_overwrite,
      getElem?_overwrite (l := overwrite _ _ _), getElem?_overwrite_outside hout]
  · have hout : i < off ∨ off + d.length ≤ i := by omega
    rw [getElem?_overwrite_outside (d := d) hout, getElem?_overwrite,
      getElem?_overwrite_outside hout, getElem?_overwrite]

end Overwrite

end Sp2Module
