import Mathlib.Data.List.DropRight
import Mathlib.Data.List.Induction
import Mathlib.Data.List.Infix

/-!
# Text

Words over an alphabet: words that commute, words split at a separator of one or two letters, and
words without the letters of some kind at their ends.
-/

namespace Sp2Module

section Words

variable {α : Type*} {u q : List α} {c : α}

/-- A word whose last letter occurs nowhere else in it commutes with its own powers alone. -/
theorem append_comm_iff (hc : c ∉ u) :
    u ++ [c] ++ q = q ++ (u ++ [c]) ↔ ∃ k, q = (List.replicate k (u ++ [c])).flatten := by
  constructor
  · intro h
    induction hn : q.length using Nat.strongRecOn generalizing q with
    | ind n ih =>
      rcases List.append_eq_append_iff.mp h with ⟨r, hq, hq'⟩ | ⟨r, hs, hs'⟩
      · have hlt : r.length < n := by
          rw [← hn, hq]
          simp only [List.length_append, List.length_singleton]
          omega
        obtain ⟨k, hk⟩ := ih r.length hlt (hq.symm.trans hq') rfl
        exact ⟨k + 1, by rw [List.replicate_succ, List.flatten_cons, ← hk, hq]⟩
      · rcases List.eq_nil_or_concat q with rfl | ⟨q', d, rfl⟩
        · exact ⟨0, rfl⟩
        rcases List.eq_nil_or_concat r with rfl | ⟨r', d', rfl⟩
        · exact ⟨1, by simpa using hs'.symm⟩
        -- the last letter ends `q` and, where something follows, does not occur in it
        · rw [List.concat_eq_append, List.concat_eq_append, ← List.append_assoc] at hs hs'
          obtain ⟨hu, -⟩ := List.append_inj' hs rfl
          obtain ⟨-, hd⟩ := List.append_inj' hs' rfl
          cases hd
          exact absurd (by rw [hu]; simp) hc
  · rintro ⟨k, rfl⟩
    induction k with
    | zero => simp
    | succ k ih =>
      rw [List.replicate_succ, List.flatten_cons, List.append_assoc (u ++ [c]), ← ih]

end Words

/-! ### Splitting -/

section Split

variable {α : Type*} [DecidableEq α] {a b c : α} {l p q : List α} {ps : List (List α)}

/-- The parts of a word between the places where `a b` stands in it. -/
def splitPair (a b : α) : List α → List (List α)
  | [] => [[]]
  | [x] => [[x]]
  | x :: y :: l =>
    if x = a ∧ y = b then [] :: splitPair a b l
    else (splitPair a b (y :: l)).modifyHead (x :: ·)

/-- The parts of a word between the letters `c`, at most `n` of them; the last one is the rest. -/
def splitMax (c : α) : ℕ → List α → List (List α)
  | 0, _ => []
  | 1, l => [l]
  | n + 2, l =>
    if c ∈ l then l.takeWhile (· ≠ c) :: splitMax c (n + 1) (l.dropWhile (· ≠ c)).tail else [l]

theorem splitPair_append (hab : a ≠ b) (h : ¬ [a, b] <:+: p) (l : List α) :
    splitPair a b (p ++ a :: b :: l) = p :: splitPair a b l := by
  induction p with
  | nil => rw [List.nil_append, splitPair, if_pos ⟨rfl, rfl⟩]
  | cons x p ih =>
    rw [List.infix_cons_iff, not_or] at h
    have hrest := ih h.2
    cases p with
    | nil =>
      rw [List.nil_append] at hrest
      rw [List.cons_append, List.nil_append, splitPair, if_neg fun hx => hab hx.2, hrest]
      rfl
    | cons y p =>
      have hne : ¬ (x = a ∧ y = b) := by
        rintro ⟨rfl, rfl⟩
        exact h.1 ⟨p, rfl⟩
      rw [List.cons_append] at hrest
      rw [List.cons_append, List.cons_append, splitPair, if_neg hne, hrest]
      rfl

theorem splitPair_of_not_infix (h : ¬ [a, b] <:+: p) : splitPair a b p = [p] := by
  induction p with
  | nil => rfl
  | cons x p ih =>
    rw [List.infix_cons_iff, not_or] at h
    have hrest := ih h.2
    cases p with
    | nil => rfl
    | cons y p =>
      have hne : ¬ (x = a ∧ y = b) := by
        rintro ⟨rfl, rfl⟩
        exact h.1 ⟨p, rfl⟩
      rw [splitPair, if_neg hne, hrest]
      rfl

/-- The first part reaches to the first place of the separator or to the end. -/
theorem exists_splitPair (a b : α) (l : List α) :
    ∃ p, ¬ [a, b] <:+: p ∧ ((l = p ∧ splitPair a b l = [p]) ∨
      ∃ l', l = p ++ a :: b :: l' ∧ splitPair a b l = p :: splitPair a b l') := by
  induction l using splitPair.induct a b with
  | case1 => exact ⟨[], by simp, Or.inl ⟨rfl, rfl⟩⟩
  | case2 x =>
    refine ⟨[x], fun h => ?_, Or.inl ⟨rfl, rfl⟩⟩
    have hle := h.length_le
    simp at hle
  | case3 x y l hxy ih =>
    obtain ⟨rfl, rfl⟩ := hxy
    refine ⟨[], by simp, Or.inr ⟨l, rfl, ?_⟩⟩
    rw [splitPair, if_pos ⟨rfl, rfl⟩]
  | case4 x y l hxy ih =>
    obtain ⟨p, hp, hcases⟩ := ih
    have hstart : p <+: y :: l := by
      rcases hcases with ⟨hl, -⟩ | ⟨l', hl, -⟩
      · exact hl ▸ List.prefix_rfl
      · exact ⟨_, hl.symm⟩
    refine ⟨x :: p, fun h => ?_, ?_⟩
    · rcases List.infix_cons_iff.mp h with hfirst | hlater
      · have hlong : [a, b] <+: x :: y :: l :=
          hfirst.trans ((List.prefix_cons_inj x).mpr hstart)
        obtain ⟨t, ht⟩ := hlong
        cases ht
        exact hxy ⟨rfl, rfl⟩
      · exact hp hlater
    · rw [splitPair, if_neg hxy]
      rcases hcases with ⟨rfl, hsplit⟩ | ⟨l', hl, hsplit⟩
      · exact Or.inl ⟨rfl, by rw [hsplit]; rfl⟩
      · exact Or.inr ⟨l', by rw [hl]; rfl, by rw [hsplit]; rfl⟩

theorem splitPair_eq_cons_iff (hab : a ≠ b) :
    splitPair a b l = p :: ps ↔ ¬ [a, b] <:+: p ∧
      ((ps = [] ∧ l = p) ∨ ∃ l', l = p ++ a :: b :: l' ∧ ps = splitPair a b l') := by
  constructor
  · intro h
    obtain ⟨q, hq, ⟨rfl, hsplit⟩ | ⟨l', rfl, hsplit⟩⟩ := exists_splitPair a b l
    · rw [hsplit] at h
      cases h
      exact ⟨hq, Or.inl ⟨rfl, rfl⟩⟩
    · rw [hsplit] at h
      cases h
      exact ⟨hq, Or.inr ⟨l', rfl, rfl⟩⟩
  · rintro ⟨hp, ⟨rfl, rfl⟩ | ⟨l', rfl, rfl⟩⟩
    · exact splitPair_of_not_infix hp
    · exact splitPair_append hab hp l'

theorem splitPair_ne_nil (a b : α) (l : List α) : splitPair a b l ≠ [] := by
  obtain ⟨p, -, ⟨-, h⟩ | ⟨l', -, h⟩⟩ := exists_splitPair a b l <;> simp [h]

/-- A letter in front that does not begin the separator belongs to the first part. -/
theorem exists_splitPair_cons {x : α} (hx : x ≠ a) (l : List α) :
    ∃ q qs, splitPair a b (x :: l) = (x :: q) :: qs := by
  obtain ⟨p, -, ⟨hl, hsplit⟩ | ⟨l', hl, hsplit⟩⟩ := exists_splitPair a b (x :: l)
  · exact ⟨l, [], hl ▸ hsplit⟩
  · cases p with
    | nil =>
      rw [List.nil_append] at hl
      cases hl
      exact absurd rfl hx
    | cons y p =>
      cases hl
      exact ⟨p, _, hsplit⟩

theorem exists_splitOn_cons {x : α} (hx : x ≠ a) (l : List α) :
    ∃ q qs, (x :: l).splitOn a = (x :: q) :: qs := by
  obtain ⟨q, qs, hl⟩ := List.exists_cons_of_ne_nil (List.splitOn_ne_nil a l)
  rw [List.splitOn_cons_eq_if_modifyHead, if_neg (by simpa using hx), hl]
  exact ⟨q, qs, rfl⟩

omit [DecidableEq α] in
/-- A word of two letters does not begin in letters of another kind. -/
theorem pair_infix_append_left (ha : a ∉ q) : [a, b] <:+: q ++ l ↔ [a, b] <:+: l := by
  induction q with
  | nil => rfl
  | cons x q ih =>
    rw [List.mem_cons, not_or] at ha
    rw [List.cons_append, List.infix_cons_iff, ih ha.2]
    refine or_iff_right fun hstart => ?_
    obtain ⟨t, ht⟩ := hstart
    exact ha.1 (List.cons.inj ht).1

omit [DecidableEq α] in
/-- Nor does it end in them. -/
theorem pair_infix_append_right (hb : b ∉ q) : [a, b] <:+: l ++ q ↔ [a, b] <:+: l := by
  induction q using List.reverseRecOn with
  | nil => rw [List.append_nil]
  | append_singleton q x ih =>
    rw [List.mem_append, List.mem_singleton, not_or] at hb
    rw [← List.append_assoc, List.infix_concat_iff, ih hb.1]
    refine or_iff_right fun hsuffix => ?_
    obtain ⟨t, ht⟩ := hsuffix
    have hends : (t ++ [a]) ++ [b] = (l ++ q) ++ [x] := by rw [← ht, List.append_assoc]; rfl
    exact hb.2 (List.cons.inj (List.append_inj' hends rfl).2).1

theorem splitMax_append (h : c ∉ p) (n : ℕ) (l : List α) :
    splitMax c (n + 2) (p ++ c :: l) = p :: splitMax c (n + 1) l := by
  have hne : ∀ x ∈ p, decide (x ≠ c) = true := fun x hx =>
    decide_eq_true fun hxc => h (hxc ▸ hx)
  rw [splitMax, if_pos (by simp), List.takeWhile_append_of_pos hne,
    List.dropWhile_append_of_pos hne]
  simp

theorem splitMax_of_notMem (h : c ∉ p) (n : ℕ) : splitMax c (n + 1) p = [p] := by
  cases n with
  | zero => rfl
  | succ n => rw [splitMax, if_neg h]

end Split

/-! ### Trimming -/

section Trim

variable {α : Type*} {p : α → Bool} {l m u v : List α}

/-- The word without the letters that satisfy `p` at its ends. -/
def trim (p : α → Bool) (l : List α) : List α := (l.dropWhile p).rdropWhile p

/-- No letter at an end satisfies `p`. -/
structure Bare (p : α → Bool) (m : List α) : Prop where
  head : ∀ x l, m = x :: l → p x = false
  last : ∀ x l, m = l ++ [x] → p x = false

theorem Bare.trim_append (h : Bare p m) (hu : ∀ x ∈ u, p x = true) (hv : ∀ x ∈ v, p x = true) :
    trim p (u ++ m ++ v) = m := by
  rw [trim, List.append_assoc, List.dropWhile_append_of_pos hu]
  rcases List.eq_nil_or_concat m with rfl | ⟨l, x, rfl⟩
  · rw [List.nil_append, List.dropWhile_eq_nil_iff.mpr hv]
    rfl
  · rw [List.concat_eq_append] at h ⊢
    have hx := h.last x l rfl
    have hdrop : (l ++ [x] ++ v).dropWhile p = l ++ [x] ++ v := by
      cases l with
      | nil => exact List.dropWhile_cons_of_neg (by simp [hx])
      | cons y l => exact List.dropWhile_cons_of_neg (by simp [h.head y (l ++ [x]) rfl])
    have hrev : ∀ y ∈ v.reverse, p y = true := fun y hy => hv y (List.mem_reverse.mp hy)
    rw [hdrop, List.rdropWhile, List.reverse_append, List.dropWhile_append_of_pos hrev,
      List.reverse_concat, List.dropWhile_cons_of_neg (by simp [hx]), List.reverse_cons,
      List.reverse_reverse]

theorem Bare.mono {q : α → Bool} (hqp : ∀ x, q x = true → p x = true) (h : Bare p m) :
    Bare q m := by
  have hq : ∀ x, p x = false → q x = false := by
    intro x hx
    rw [← Bool.not_eq_true] at hx ⊢
    exact fun hqx => hx (hqp x hqx)
  exact ⟨fun x l hm => hq x (h.head x l hm), fun x l hm => hq x (h.last x l hm)⟩

theorem bare_trim (p : α → Bool) (l : List α) : Bare p (trim p l) where
  head x t h := by
    have hstart := List.rdropWhile_prefix p (l.dropWhile p)
    change trim p l <+: _ at hstart
    rw [h] at hstart
    obtain ⟨r, hr⟩ := hstart
    have hhead := List.head?_dropWhile_not p l
    rw [← hr] at hhead
    simpa using hhead
  last x t h := by
    have hne : trim p l ≠ [] := by simp [h]
    have hlast := List.rdropWhile_last_not p (l.dropWhile p) hne
    change ¬ p ((trim p l).getLast hne) = true at hlast
    simpa [h] using hlast

theorem exists_trim (p : α → Bool) (l : List α) :
    ∃ u v, l = u ++ trim p l ++ v ∧ (∀ x ∈ u, p x = true) ∧ ∀ x ∈ v, p x = true := by
  refine ⟨l.takeWhile p, (l.dropWhile p).rtakeWhile p, ?_, ?_, ?_⟩
  · rw [List.append_assoc, trim, List.rdropWhile_append_rtakeWhile, List.takeWhile_append_dropWhile]
  · exact fun x hx => List.mem_takeWhile_imp hx
  · exact fun x hx => List.mem_rtakeWhile_imp hx

theorem exists_trim_cons {x : α} (hx : p x = false) (l : List α) :
    ∃ l', trim p (x :: l) = x :: l' := by
  have hdrop : (x :: l).dropWhile p = x :: l := by simp [hx]
  have hstart := List.rdropWhile_prefix p (x :: l)
  have hne : (x :: l).rdropWhile p ≠ [] := by
    rw [Ne, List.rdropWhile_eq_nil_iff]
    intro h
    have hpx := h x List.mem_cons_self
    rw [hx] at hpx
    cases hpx
  rw [trim, hdrop]
  cases htrim : (x :: l).rdropWhile p with
  | nil => exact absurd htrim hne
  | cons y l' =>
    rw [htrim, List.cons_prefix_cons] at hstart
    exact ⟨l', by rw [hstart.1]⟩

end Trim

end Sp2Module
