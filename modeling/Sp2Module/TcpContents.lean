import Sp2Module.TcpLogger
import Mathlib.Data.List.Perm.Basic
import Mathlib.Algebra.BigOperators.Group.List.Basic

/-!
# Contents of the messages sent

The queue holds pointers, and the flush takes the length of a message from its first zero. A run
sends every message once and whole exactly when no message that waits has a zero in it.
-/

namespace Sp2Module.TcpLogger

variable {data : Bytes} {messages messages' before after : List Bytes}

/-- What has been sent are the lines of the messages, each once, in some order. -/
def EachOnce (before after : List Bytes) : Prop :=
  ∃ messages, messages.Perm (before ++ [socketInitialized] ++ after) ∧
    (run before after).sent = lines messages

/-- The number of bytes of the lines. -/
def linesLength (messages : List Bytes) : ℕ := (messages.map fun data => data.length + 1).sum

theorem length_lines (messages : List Bytes) : (lines messages).length = linesLength messages := by
  rw [lines, List.length_flatten, List.map_map, linesLength]
  congr 1
  apply List.map_congr_left
  intro data _
  simp [line]

theorem linesLength_append (messages messages' : List Bytes) :
    linesLength (messages ++ messages') = linesLength messages + linesLength messages' := by
  simp only [linesLength, List.map_append, List.sum_append]

theorem linesLength_perm (h : messages.Perm messages') :
    linesLength messages = linesLength messages' :=
  (h.map _).sum_eq

/-- A message with a zero in it is cut off there. -/
theorem length_flushed_lt (h : 0 ∈ data) : (flushed data).length < data.length + 1 := by
  have hle := (List.takeWhile_prefix (l := data) (· ≠ (0 : UInt8))).length_le
  have hcut : (data.takeWhile (· ≠ 0)).length ≠ data.length := by
    intro heq
    have hall := List.takeWhile_eq_self_iff.mp
      ((List.takeWhile_prefix (· ≠ (0 : UInt8))).eq_of_length heq)
    simpa using hall 0 h
  rw [flushed, List.length_take, strlen, List.takeWhile_append, if_neg hcut]
  omega

theorem length_flushed_le (data : Bytes) : (flushed data).length ≤ data.length + 1 := by
  by_cases h : 0 ∈ data
  · exact (length_flushed_lt h).le
  · rw [flushed_eq_line h]
    simp [line]

theorem length_flatten_flushed_le (messages : List Bytes) :
    (messages.map flushed).flatten.length ≤ linesLength messages := by
  induction messages with
  | nil => exact le_rfl
  | cons data messages ih =>
    have hdata := length_flushed_le data
    rw [List.map_cons, List.flatten_cons, List.length_append]
    change _ ≤ data.length + 1 + linesLength messages
    omega

/-- One message with a zero in it makes the flush shorter than the lines. -/
theorem length_flatten_flushed_lt (hmem : data ∈ messages) (h : 0 ∈ data) :
    (messages.map flushed).flatten.length < linesLength messages := by
  obtain ⟨front, back, rfl⟩ := List.append_of_mem hmem
  have hfront := length_flatten_flushed_le front
  have hback := length_flatten_flushed_le back
  have hdata := length_flushed_lt h
  rw [linesLength_append, List.map_append, List.flatten_append, List.length_append, List.map_cons,
    List.flatten_cons, List.length_append]
  change _ < _ + (data.length + 1 + linesLength back)
  omega

/-- Every message goes out once and whole exactly when no message that waits has a zero in it. -/
theorem eachOnce_iff (before after : List Bytes) :
    EachOnce before after ↔ ∀ m ∈ before, 0 ∉ m := by
  constructor
  · rintro ⟨messages, hperm, hsent⟩ m hm hzero
    have hlt := length_flatten_flushed_lt hm hzero
    have hlen := congrArg List.length hsent
    rw [sent_run, length_lines, linesLength_perm hperm, linesLength_append, linesLength_append,
      List.length_append, List.length_append, length_lines, ← lines_singleton, length_lines] at hlen
    omega
  · intro hnul
    refine ⟨socketInitialized :: before ++ after, ?_, ?_⟩
    · exact (List.perm_append_singleton _ _).symm.append_right after
    · rw [sent_run, flatten_map_flushed hnul, lines_append, lines_cons]

/-- A message of two bytes, the first of which is zero, waits and is lost. -/
theorem not_eachOnce_zero : (run [[0, 65]] []).sent = line socketInitialized ∧
    ¬ ∀ before after, EachOnce before after := by
  have hsent : (run [[0, 65]] []).sent = line socketInitialized := by decide
  refine ⟨hsent, fun h => ?_⟩
  obtain ⟨messages, hperm, hlines⟩ := h [[0, 65]] []
  have hlen := congrArg List.length hlines
  rw [hsent, length_lines, linesLength_perm hperm] at hlen
  revert hlen
  decide

end Sp2Module.TcpLogger
