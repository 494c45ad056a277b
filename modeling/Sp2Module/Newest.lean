import Mathlib.Data.List.Induction
import Mathlib.Order.BoundedOrder.Basic
import Mathlib.Order.MinMax

/-!
# The newest entry

Entries with a time come one after the other. One is taken if none of those before it is newer; when
one is not, there is nothing until the next one that is. What is taken depends on the entries only:
it is the last one, where it is as new as all the others.
-/

namespace Sp2Module.Newest

variable {E T V : Type*} [LinearOrder T] [OrderBot T] (time : E → T) (value : E → V) (absent : V)

/-- The time of the last entry that was taken and the value there is, behind the next entry. -/
def take (s : T × V) (e : E) : T × V := if s.1 ≤ time e then (time e, value e) else (s.1, absent)

/-- The latest of the times. -/
def latest (es : List E) : T := es.foldl (fun t e => max t (time e)) ⊥

/-- The value of the last entry, where no other one is newer. -/
def newest (es : List E) : V :=
  match es.getLast? with
  | some e => if ∀ e' ∈ es, time e' ≤ time e then value e else absent
  | none => absent

variable {time value absent} {e : E} {es : List E} {t : T}

theorem latest_concat (es : List E) (e : E) :
    latest time (es ++ [e]) = max (latest time es) (time e) := by
  rw [latest, latest, List.foldl_append]
  rfl

theorem latest_le_iff : latest time es ≤ t ↔ ∀ e ∈ es, time e ≤ t := by
  induction es using List.reverseRecOn with
  | nil => exact iff_of_true bot_le (List.forall_mem_nil _)
  | append_singleton es e ih =>
    rw [latest_concat, max_le_iff, ih, List.forall_mem_append, List.forall_mem_singleton]

theorem newest_concat (es : List E) (e : E) : newest time value absent (es ++ [e]) =
    if latest time es ≤ time e then value e else absent := by
  have hiff : (∀ e' ∈ es ++ [e], time e' ≤ time e) ↔ latest time es ≤ time e := by
    rw [latest_le_iff, List.forall_mem_append, List.forall_mem_singleton]
    exact and_iff_left le_rfl
  simp only [newest, List.getLast?_concat, hiff]

/-- What is taken out of the entries, one after the other. -/
theorem foldl_take (es : List E) : es.foldl (take time value absent) (⊥, absent) =
    (latest time es, newest time value absent es) := by
  induction es using List.reverseRecOn with
  | nil => rfl
  | append_singleton es e ih =>
    rw [List.foldl_append, ih, latest_concat, newest_concat, List.foldl_cons, List.foldl_nil, take]
    by_cases hle : latest time es ≤ time e
    · rw [if_pos hle, if_pos hle, max_eq_right hle]
    · rw [if_neg hle, if_neg hle, max_eq_left (le_of_not_ge hle)]

end Sp2Module.Newest
