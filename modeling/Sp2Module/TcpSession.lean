import Sp2Module.TcpLogger
import Mathlib.Logic.Function.Basic

/-!
# Initializing the TCP logger again

Every initialization connects a socket of its own and makes it the one that is sent to; the ones
before stay open. A message goes out on the socket of the last initialization before it, or else of
the first one, behind the message of that initialization.
-/

namespace Sp2Module

/-- The globals of the logger, and what has gone out on each socket. -/
structure TcpSession where
  tcpSocket : ℤ
  loggerInit : Bool
  msgQueue : Option (List Bytes)
  sent : ℤ → Bytes

namespace TcpSession

open TcpLogger (line lines flushed socketInitialized)

/-- The logger as it is over its socket. -/
def logger (s : TcpSession) : TcpLogger := ⟨s.loggerInit, s.msgQueue, s.sent s.tcpSocket⟩

/-- A step of the logger over its socket. -/
def step (f : TcpLogger → TcpLogger) (s : TcpSession) : TcpSession :=
  { s with
    loggerInit := (f s.logger).loggerInit
    msgQueue := (f s.logger).msgQueue
    sent := Function.update s.sent s.tcpSocket (f s.logger).sent }

/-- A call of the logger; `socket` is the one that is opened and connected. -/
inductive Event where
  | tcpInitialize (socket : ℤ)
  | log (data : Bytes)
deriving DecidableEq, Repr

def apply (s : TcpSession) : Event → TcpSession
  | .tcpInitialize socket => step TcpLogger.tcpInitialize { s with tcpSocket := socket }
  | .log data => step (TcpLogger.log data) s

def run (events : List Event) (s : TcpSession) : TcpSession := events.foldl apply s

def start : TcpSession := ⟨0, false, none, fun _ => []⟩

variable {s : TcpSession} {messages : List Bytes} {f : TcpLogger → TcpLogger} {more : Bytes}

/-! ### One call -/

/-- The logger over its socket takes the step. -/
theorem logger_step (f : TcpLogger → TcpLogger) (s : TcpSession) :
    (step f s).logger = f s.logger := by
  simp only [step, logger, Function.update_self]

/-- What the logger sends goes out on its socket, and nothing on the others. -/
theorem sent_step (h : (f s.logger).sent = s.sent s.tcpSocket ++ more) (socket : ℤ) :
    (step f s).sent socket = s.sent socket ++ if s.tcpSocket = socket then more else [] := by
  by_cases heq : s.tcpSocket = socket
  · rw [if_pos heq, ← heq, ← h]
    exact Function.update_self ..
  · rw [if_neg heq, List.append_nil]
    exact Function.update_of_ne (Ne.symm heq) ..

/-- Nothing has been sent, and the messages wait. -/
def Waiting (messages : List Bytes) (s : TcpSession) : Prop :=
  TcpLogger.Waiting messages s.logger ∧ ∀ socket, s.sent socket = []

/-- The logger sends, and nothing waits. -/
def Sending (s : TcpSession) : Prop := TcpLogger.Sending (s.sent s.tcpSocket) s.logger

theorem Waiting.log (h : Waiting messages s) (data : Bytes) :
    Waiting (messages ++ [data]) (s.apply (.log data)) := by
  obtain ⟨hlogger, hsent⟩ := h
  have hnext := hlogger.log data
  have hnothing : (TcpLogger.log data s.logger).sent = s.sent s.tcpSocket ++ [] := by
    rw [hnext.2.2, hsent, List.append_nil]
  refine ⟨?_, fun socket => ?_⟩
  · rw [TcpSession.apply, logger_step]
    exact hnext
  · rw [TcpSession.apply, sent_step hnothing, hsent, ite_self, List.append_nil]

theorem sending_step (h : TcpLogger.Sending more (f s.logger)) : Sending (step f s) := by
  have hsent := (logger_step f s).symm ▸ h
  exact ⟨hsent.1, hsent.2.1, rfl⟩

theorem Sending.log (h : Sending s) (data : Bytes) :
    Sending (s.apply (.log data)) ∧ ∀ socket, (s.apply (.log data)).sent socket =
      s.sent socket ++ if s.tcpSocket = socket then line data else [] := by
  have hnext := TcpLogger.Sending.log h data
  exact ⟨sending_step hnext, sent_step hnext.2.2⟩

/-- The message of the first initialization goes out before the messages that waited. -/
theorem Waiting.tcpInitialize (h : Waiting messages s) (socket : ℤ) :
    Sending (s.apply (.tcpInitialize socket)) ∧
      ∀ other, (s.apply (.tcpInitialize socket)).sent other =
        if socket = other then line socketInitialized ++ (messages.map flushed).flatten
        else [] := by
  obtain ⟨⟨hinit, hqueue, -⟩, hsent⟩ := h
  have hnext := TcpLogger.Waiting.tcpInitialize
    (l := ({ s with tcpSocket := socket } : TcpSession).logger) ⟨hinit, hqueue, hsent socket⟩
  have hadded :
      (TcpLogger.tcpInitialize ({ s with tcpSocket := socket } : TcpSession).logger).sent =
        s.sent socket ++ (line socketInitialized ++ (messages.map flushed).flatten) := by
    rw [hnext.2.2, hsent socket, List.nil_append]
  refine ⟨sending_step hnext, fun other => ?_⟩
  have hstep := sent_step (s := { s with tcpSocket := socket }) hadded other
  rw [hsent other, List.nil_append] at hstep
  exact hstep

/-- With nothing in the queue only the message of the initialization goes out. -/
theorem sending_tcpInitialize {stream : Bytes} {l : TcpLogger} (h : TcpLogger.Sending stream l) :
    TcpLogger.Sending (stream ++ line socketInitialized) l.tcpInitialize := by
  have hinit : TcpLogger.Sending stream { l with loggerInit := true } := ⟨rfl, h.2⟩
  have hlog := hinit.log socketInitialized
  have hqueue := hlog.2.1
  unfold TcpLogger.tcpInitialize TcpLogger.clearQueue
  cases hq : (TcpLogger.log socketInitialized { l with loggerInit := true }).msgQueue with
  | none => exact hlog
  | some queue =>
    rw [hq, Option.getD_some] at hqueue
    rw [hqueue]
    exact hlog

/-- A later initialization only sends its own message. -/
theorem Sending.tcpInitialize (h : Sending s) (socket : ℤ) :
    Sending (s.apply (.tcpInitialize socket)) ∧
      ∀ other, (s.apply (.tcpInitialize socket)).sent other =
        s.sent other ++ if socket = other then line socketInitialized else [] := by
  have hmoved : TcpLogger.Sending (s.sent socket)
      ({ s with tcpSocket := socket } : TcpSession).logger := ⟨h.1, h.2.1, rfl⟩
  have hnext := sending_tcpInitialize hmoved
  exact ⟨sending_step hnext, sent_step (s := { s with tcpSocket := socket }) hnext.2.2⟩

/-! ### Whole runs -/

theorem waiting_start : Waiting [] start := ⟨TcpLogger.waiting_start, fun _ => rfl⟩

end TcpSession

end Sp2Module
