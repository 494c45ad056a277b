import Sp2Module.BinaryReader
import Mathlib.Data.List.Induction

/-!
# The handle of the service manager

The hook on `svcConnectToNamedPort` passes what the kernel leaves in the session on to libnx when
the port is `"sm:"`, without a look at the result. Over a run of connections libnx has the session
of the last one that succeeded as long as every one that failed has left that same session behind.
-/

namespace Sp2Module.SmHandle

abbrev Handle := UInt32

abbrev Result := UInt32

def invalidHandle : Handle := 0

def rFailed (rc : Result) : Prop := rc ≠ 0

instance (rc : Result) : Decidable (rFailed rc) := inferInstanceAs (Decidable (_ ≠ _))

/-- The memory at a name is a string up to its first zero. -/
def strcmpEq (name name' : Bytes) : Prop := name.takeWhile (· ≠ 0) = name'.takeWhile (· ≠ 0)

instance (name name' : Bytes) : Decidable (strcmpEq name name') :=
  inferInstanceAs (Decidable (_ = _))

/-- A call of the hook: the name, and the two registers the kernel returns. -/
structure Connect where
  name : Bytes
  w0 : Result
  w1 : Handle
deriving DecidableEq, Repr

/-- The result, and what is stored to the session whatever the result is. -/
def svcConnectToNamedPort (c : Connect) : Result × Handle := (c.w0, c.w1)

/-- `g_smHandle` behind the assignment. -/
def smSetHandle (session : Handle) : Handle := session

def smName : Bytes := asciiGetBytes "sm:"

/-- What the game gets back, and `g_smHandle` behind the call. -/
def svcConnectToNamedPortHook (c : Connect) (smHandle : Handle) : (Result × Handle) × Handle :=
  let (rc, session) := svcConnectToNamedPort c
  if strcmpEq c.name smName then ((rc, session), smSetHandle session)
  else ((rc, session), smHandle)

/-- `g_smHandle` behind a run of calls. -/
def smHandleAfter (calls : List Connect) : Handle :=
  calls.foldl (fun smHandle c => (svcConnectToNamedPortHook c smHandle).2) invalidHandle

/-- The session of the last connection to `"sm:"` that succeeded. -/
def lastSession (calls : List Connect) : Handle :=
  calls.foldl (fun session c => if strcmpEq c.name smName ∧ ¬ rFailed c.w0 then c.w1 else session)
    invalidHandle

/-- Behind every call of a run libnx has the session of the last connection that succeeded. -/
def StaysValid (calls : List Connect) : Prop :=
  ∀ done, done <+: calls → smHandleAfter done = lastSession done

/-- Every failed connection to `"sm:"` leaves the last session in the handle. -/
def FailuresKeep (calls : List Connect) : Prop :=
  ∀ done c, done ++ [c] <+: calls → strcmpEq c.name smName → rFailed c.w0 → c.w1 = lastSession done

variable {calls done : List Connect} {c : Connect}

theorem smHandleAfter_concat (done : List Connect) (c : Connect) :
    smHandleAfter (done ++ [c]) =
      if strcmpEq c.name smName then c.w1 else smHandleAfter done := by
  rw [smHandleAfter, List.foldl_concat, svcConnectToNamedPortHook]
  split_ifs with hsm
  · rfl
  · rfl

theorem lastSession_concat (done : List Connect) (c : Connect) :
    lastSession (done ++ [c]) =
      if strcmpEq c.name smName ∧ ¬ rFailed c.w0 then c.w1 else lastSession done := by
  rw [lastSession, List.foldl_concat]
  rfl

/-- A call keeps the handle right unless it fails and leaves something else behind. -/
theorem smHandleAfter_concat_eq_iff (h : smHandleAfter done = lastSession done) :
    smHandleAfter (done ++ [c]) = lastSession (done ++ [c]) ↔
      (strcmpEq c.name smName → rFailed c.w0 → c.w1 = lastSession done) := by
  rw [smHandleAfter_concat, lastSession_concat]
  by_cases hsm : strcmpEq c.name smName
  · by_cases hfail : rFailed c.w0
    · simp [hsm, hfail]
    · simp [hsm, hfail]
  · simp [hsm, h]

/-- The handle is right behind every call exactly when every failure leaves it as it was. -/
theorem staysValid_iff (calls : List Connect) : StaysValid calls ↔ FailuresKeep calls := by
  constructor
  · intro h done c hpre
    exact (smHandleAfter_concat_eq_iff (h done ((List.prefix_append _ _).trans hpre))).mp
      (h (done ++ [c]) hpre)
  · intro h done
    induction done using List.reverseRecOn with
    | nil => exact fun _ => rfl
    | append_singleton done c ih =>
      intro hpre
      exact (smHandleAfter_concat_eq_iff (ih ((List.prefix_append _ _).trans hpre))).mpr
        (h done c hpre)

/-- A connection that succeeds, and one that fails and leaves another value behind. -/
theorem not_staysValid_retry :
    smHandleAfter [⟨smName, 0, 5⟩, ⟨smName, 0xEA01, 0xDEAD⟩] = 0xDEAD ∧
      ¬ ∀ calls, StaysValid calls := by
  have hafter : smHandleAfter [⟨smName, 0, 5⟩, ⟨smName, 0xEA01, 0xDEAD⟩] = 0xDEAD := by decide
  refine ⟨hafter, fun h => ?_⟩
  have hlast := h [⟨smName, 0, 5⟩, ⟨smName, 0xEA01, 0xDEAD⟩] _ (List.prefix_refl _)
  revert hlast
  decide

end Sp2Module.SmHandle
