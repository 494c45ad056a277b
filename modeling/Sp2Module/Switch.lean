import Mathlib.Data.List.Chain

/-!
# Switches

A switch that is looked at now and then is told to be pressed when it is found on and was off at the
look before, and to be released when it is the other way round. So the two alternate, and they add
up to how the switch was found last.
-/

namespace Sp2Module

/-- A switch as it was found at the look before and at the last one, and what is told of it. -/
structure Switch where
  old : Bool
  held : Bool
  down : Bool
  up : Bool
deriving DecidableEq, Repr

namespace Switch

/-- The switch when it is found as `x`. -/
def scan (s : Switch) (x : Bool) : Switch := ⟨s.held, x, !s.held && x, s.held && !x⟩

/-- The second state is a look at the first one. -/
def Next (s t : Switch) : Prop := t = s.scan t.held

/-- What is told of the switch fits how it has been found. -/
def Sound (s : Switch) : Prop := s.down = (!s.old && s.held) ∧ s.up = (s.old && !s.held)

variable {r s t : Switch} {l before between after : List Switch}

theorem Next.sound (h : s.Next t) : t.Sound := by
  rw [h]
  exact ⟨rfl, rfl⟩

theorem Next.toNat_add (h : s.Next t) :
    t.down.toNat + s.held.toNat = t.up.toNat + t.held.toNat := by
  rw [h, scan]
  cases s.held <;> cases t.held <;> rfl

theorem sound_of_isChain (h : (s :: l).IsChain Next) : ∀ t ∈ l, t.Sound := by
  induction l generalizing s with
  | nil => exact List.forall_mem_nil _
  | cons t l ih =>
    obtain ⟨hnext, hchain⟩ := List.isChain_cons_cons.mp h
    exact List.forall_mem_cons.mpr ⟨hnext.sound, ih hchain⟩

theorem Sound.of_down (h : s.Sound) (hdown : s.down) : s.held ∧ s.up = false := by
  obtain ⟨hd, hu⟩ := h
  rw [hd, Bool.and_eq_true] at hdown
  rw [hu, hdown.2]
  exact ⟨rfl, Bool.and_false _⟩

theorem Sound.of_up (h : s.Sound) (hup : s.up) : s.held = false ∧ s.down = false := by
  obtain ⟨hd, hu⟩ := h
  rw [hu, Bool.and_eq_true, Bool.not_eq_true'] at hup
  rw [hd, hup.2]
  exact ⟨rfl, Bool.and_false _⟩

/-- The presses and the releases differ by what the switch has changed. -/
theorem countP_add (h : (s :: l).IsChain Next) :
    l.countP down + s.held.toNat = l.countP up + (l.getLastD s).held.toNat := by
  have hone : ∀ b : Bool, (if b then 1 else 0) = b.toNat := by decide
  induction l generalizing s with
  | nil => rfl
  | cons t l ih =>
    obtain ⟨hnext, hchain⟩ := List.isChain_cons_cons.mp h
    have hrest := ih hchain
    have hfirst := hnext.toNat_add
    rw [List.countP_cons, List.countP_cons, List.getLastD_cons, hone, hone]
    omega

/-- What is told of a switch alternates. -/
theorem alternates (h : (r :: (before ++ s :: (between ++ t :: after))).IsChain Next) :
    (s.down → t.down → ∃ q ∈ between, q.up) ∧ (s.up → t.up → ∃ q ∈ between, q.down) := by
  have hsound := sound_of_isChain h
  have hs : s.Sound := hsound s (by simp)
  have ht : t.Sound := hsound t (by simp)
  have hbetween : (s :: (between ++ [t])).IsChain Next := h.infix ⟨r :: before, after, by simp⟩
  have hcount := countP_add hbetween
  rw [List.getLastD_concat, List.countP_append, List.countP_append, List.countP_singleton,
    List.countP_singleton] at hcount
  constructor
  · intro hdown hdown'
    rw [(hs.of_down hdown).1, (ht.of_down hdown').1, (ht.of_down hdown').2, if_pos hdown',
      if_neg Bool.false_ne_true] at hcount
    have hpos : 0 < between.countP up := by omega
    exact List.countP_pos_iff.mp hpos
  · intro hup hup'
    rw [(hs.of_up hup).1, (ht.of_up hup').1, (ht.of_up hup').2, if_pos hup',
      if_neg Bool.false_ne_true] at hcount
    have hpos : 0 < between.countP down := by omega
    exact List.countP_pos_iff.mp hpos

end Switch

end Sp2Module
