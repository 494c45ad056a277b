import Mathlib.Data.List.Basic

/-!
# Properties of every state of a run

A run applies a list of actions to a state one after another. A property that holds throughout is
one of the first state and of the state behind every action.
-/

namespace Sp2Module

variable {σ α : Type*} {step : σ → α → σ} {P I : σ → Prop} {Q : α → Prop} {s : σ} {as : List α}

/-- `P` holds of `s` and of every state the actions lead to from there. -/
def Throughout (step : σ → α → σ) (P : σ → Prop) : σ → List α → Prop
  | s, [] => P s
  | s, a :: as => P s ∧ Throughout step P (step s a) as

namespace Throughout

theorem head (h : Throughout step P s as) : P s := by
  cases as with
  | nil => exact h
  | cons a as => exact h.1

/-- An invariant that the actions of a kind keep holds throughout a run of them. -/
theorem of_invariant (hstep : ∀ s a, I s → Q a → I (step s a)) (hP : ∀ s, I s → P s) (hs : I s)
    (has : ∀ a ∈ as, Q a) : Throughout step P s as := by
  induction as generalizing s with
  | nil => exact hP s hs
  | cons a as ih =>
    have hnext := hstep s a hs (has a List.mem_cons_self)
    exact ⟨hP s hs, ih hnext fun b hb => has b (List.mem_cons_of_mem a hb)⟩

/-- What an action has to be for the state behind it to have the property, all of them are. -/
theorem forall_mem (hstep : ∀ s a, I s → P (step s a) → Q a ∧ I (step s a)) (hs : I s)
    (h : Throughout step P s as) : ∀ a ∈ as, Q a := by
  induction as generalizing s with
  | nil => simp
  | cons a as ih =>
    obtain ⟨hQ, hnext⟩ := hstep s a hs h.2.head
    intro b hb
    rcases List.mem_cons.mp hb with rfl | hb
    · exact hQ
    · exact ih hnext h.2 b hb

/-- The two together: where the property of the next state is decided by the action, the property
holds throughout exactly when every action is of the kind. -/
theorem iff_forall (hP : ∀ s, I s → P s)
    (hstep : ∀ s a, I s → (P (step s a) ↔ Q a)) (hI : ∀ s a, I s → Q a → I (step s a))
    (hs : I s) : Throughout step P s as ↔ ∀ a ∈ as, Q a :=
  ⟨forall_mem (fun s a hI' h => ⟨(hstep s a hI').mp h, hI s a hI' ((hstep s a hI').mp h)⟩) hs,
    of_invariant hI hP hs⟩

end Throughout

end Sp2Module
