import Sp2Module.BinaryReader
import Sp2Module.Text

/-!
# The TCP logger

Before the logger is initialized messages wait in a queue; afterwards each one is sent at once.
The initialization logs a message of its own and sends the queue behind it. `sent` is what has gone
out on the socket, which takes every buffer whole.
-/

namespace Sp2Module

/-- The globals of the logger; `none` is the queue that has not been allocated. -/
structure TcpLogger where
  loggerInit : Bool
  msgQueue : Option (List Bytes)
  sent : Bytes
deriving DecidableEq, Repr

namespace TcpLogger

/-- The number of bytes before the first zero. -/
def strlen (data : Bytes) : ℕ := (data.takeWhile (· ≠ 0)).length

def sendRaw (data : Bytes) (size : ℕ) (l : TcpLogger) : TcpLogger :=
  { l with sent := l.sent ++ data.take size }

def addToQueue (data : Bytes) (l : TcpLogger) : TcpLogger :=
  { l with msgQueue := some (l.msgQueue.getD [] ++ [data]) }

/-- The loop of `ClearQueue` over what is in the queue. -/
def sendQueue : List Bytes → TcpLogger → TcpLogger
  | [], l => l
  | data :: queue, l =>
    sendQueue queue { l.sendRaw data (strlen data) with msgQueue := some queue }

def clearQueue (l : TcpLogger) : TcpLogger :=
  match l.msgQueue with
  | none => l
  | some queue => sendQueue queue l

/-- The message in a buffer of two bytes more, a newline behind it. -/
def log (data : Bytes) (l : TcpLogger) : TcpLogger :=
  let ptr := data ++ [10, 0]
  if l.loggerInit then l.sendRaw ptr (data.length + 1) else l.addToQueue ptr

def socketInitialized : Bytes := asciiGetBytes "socket initialized!"

/-- `Initialize` where the socket is opened and connected. -/
def tcpInitialize (l : TcpLogger) : TcpLogger :=
  (({ l with loggerInit := true } : TcpLogger).log socketInitialized).clearQueue

def start : TcpLogger := ⟨false, none, []⟩

/-- Messages that are logged one after another. -/
def logAll (messages : List Bytes) (l : TcpLogger) : TcpLogger :=
  messages.foldl (fun l data => l.log data) l

/-- A run of the program: messages, the initialization, and messages again. -/
def run (before after : List Bytes) : TcpLogger :=
  ((start.logAll before).tcpInitialize).logAll after

/-- A message and the newline that ends it. -/
def line (data : Bytes) : Bytes := data ++ [10]

def lines (messages : List Bytes) : Bytes := (messages.map line).flatten

/-- The stream has the messages in the order they were logged in. -/
def InOrder (before after : List Bytes) : Prop :=
  (run before after).sent = lines (before ++ [socketInitialized] ++ after)

variable {l : TcpLogger} {data : Bytes} {messages queue before after : List Bytes}

theorem lines_append (messages messages' : List Bytes) :
    lines (messages ++ messages') = lines messages ++ lines messages' := by
  simp only [lines, List.map_append, List.flatten_append]

theorem lines_singleton (data : Bytes) : lines [data] = line data := by
  simp only [lines, List.map_singleton, List.flatten_singleton]

theorem lines_cons (data : Bytes) (messages : List Bytes) :
    lines (data :: messages) = line data ++ lines messages := rfl

theorem take_line (data : Bytes) : (data ++ [10, 0]).take (data.length + 1) = line data := by
  rw [List.take_append, List.take_of_length_le (by omega), Nat.add_sub_cancel_left]
  rfl

/-- What the flush sends of a queued message. -/
def flushed (data : Bytes) : Bytes := (data ++ [10, 0]).take (strlen (data ++ [10, 0]))

/-- A queued message is sent to the zero behind its newline. -/
theorem flushed_eq_line (h : 0 ∉ data) : flushed data = line data := by
  have hword : (data ++ [10, 0]).takeWhile (· ≠ 0) = line data := by
    rw [List.takeWhile_append_of_pos]
    · rfl
    · intro b hb
      simpa using fun hzero : b = 0 => h (hzero ▸ hb)
  have hlen : (line data).length = data.length + 1 := by simp [line]
  rw [flushed, strlen, hword, hlen, take_line]

theorem flatten_map_flushed (h : ∀ m ∈ messages, 0 ∉ m) :
    (messages.map flushed).flatten = lines messages := by
  rw [lines, List.map_congr_left fun m hm => flushed_eq_line (h m hm)]

/-! ### Before the initialization -/

/-- The logger has not been initialized and holds the messages, in the order they came in. -/
def Waiting (messages : List Bytes) (l : TcpLogger) : Prop :=
  l.loggerInit = false ∧ l.msgQueue.getD [] = messages.map (· ++ [10, 0]) ∧ l.sent = []

theorem waiting_start : Waiting [] start := ⟨rfl, rfl, rfl⟩

theorem Waiting.log (h : Waiting messages l) (data : Bytes) :
    Waiting (messages ++ [data]) (l.log data) := by
  obtain ⟨hinit, hqueue, hsent⟩ := h
  unfold TcpLogger.log
  rw [hinit]
  refine ⟨hinit, ?_, hsent⟩
  simp only [Bool.false_eq_true, if_false, addToQueue, Option.getD_some, hqueue, List.map_append,
    List.map_singleton]

theorem Waiting.logAll (h : Waiting messages l) (more : List Bytes) :
    Waiting (messages ++ more) (l.logAll more) := by
  induction more generalizing messages l with
  | nil => rwa [List.append_nil]
  | cons data more ih =>
    have hnext := ih (h.log data)
    rwa [List.append_assoc] at hnext

/-! ### After the initialization -/

/-- The logger has been initialized, nothing waits, and `stream` is what has been sent. -/
def Sending (stream : Bytes) (l : TcpLogger) : Prop :=
  l.loggerInit = true ∧ l.msgQueue.getD [] = [] ∧ l.sent = stream

variable {stream : Bytes}

theorem Sending.log (h : Sending stream l) (data : Bytes) :
    Sending (stream ++ line data) (l.log data) := by
  obtain ⟨hinit, hqueue, hsent⟩ := h
  unfold TcpLogger.log
  rw [hinit, if_pos rfl, sendRaw, take_line, hsent]
  exact ⟨hinit, hqueue, rfl⟩

theorem Sending.logAll (h : Sending stream l) (messages : List Bytes) :
    Sending (stream ++ lines messages) (l.logAll messages) := by
  induction messages generalizing stream l with
  | nil => rwa [lines, List.map_nil, List.flatten_nil, List.append_nil]
  | cons data messages ih =>
    have hnext := ih (h.log data)
    rwa [List.append_assoc, ← lines_cons] at hnext

/-- The flush sends every queued message and leaves the queue empty. -/
theorem sending_sendQueue (hinit : l.loggerInit = true)
    (hqueue : l.msgQueue.getD [] = messages.map (· ++ [10, 0])) :
    Sending (l.sent ++ (messages.map flushed).flatten)
      (sendQueue (messages.map (· ++ [10, 0])) l) := by
  induction messages generalizing l with
  | nil => exact ⟨hinit, hqueue, (List.append_nil _).symm⟩
  | cons data messages ih =>
    have hrest := ih (l := ⟨l.loggerInit, some (messages.map (· ++ [10, 0])),
      l.sent ++ flushed data⟩) hinit rfl
    rwa [List.append_assoc, ← List.flatten_cons, ← List.map_cons] at hrest

/-- The message of the initialization goes out before the messages that waited for it. -/
theorem Waiting.tcpInitialize (h : Waiting messages l) :
    Sending (line socketInitialized ++ (messages.map flushed).flatten) l.tcpInitialize := by
  obtain ⟨hinit, hqueue, hsent⟩ := h
  unfold TcpLogger.tcpInitialize TcpLogger.log
  rw [if_pos rfl, sendRaw, take_line, hsent, List.nil_append, clearQueue]
  dsimp only
  cases hq : l.msgQueue with
  | none =>
    rw [hq] at hqueue
    have hnil : messages = [] := List.map_eq_nil_iff.mp hqueue.symm
    subst hnil
    exact ⟨rfl, rfl, (List.append_nil _).symm⟩
  | some queue =>
    rw [hq, Option.getD_some] at hqueue
    subst hqueue
    exact sending_sendQueue (l := ⟨true, _, line socketInitialized⟩) rfl rfl

/-- What a run sends. -/
theorem sent_run (before after : List Bytes) :
    (run before after).sent =
      line socketInitialized ++ (before.map flushed).flatten ++ lines after := by
  have hwait := waiting_start.logAll before
  rw [List.nil_append] at hwait
  exact (hwait.tcpInitialize.logAll after).2.2

theorem newline_not_mem_socketInitialized : (10 : UInt8) ∉ socketInitialized := by decide

/-- A stream is in order exactly when the lines that waited are nothing but repetitions of the line
of the initialization. -/
theorem inOrder_iff (hnul : ∀ m ∈ before ++ after, 0 ∉ m) :
    InOrder before after ↔
      ∃ k, lines before = (List.replicate k (line socketInitialized)).flatten := by
  rw [InOrder, sent_run, flatten_map_flushed fun m hm => hnul m (List.mem_append_left after hm),
    lines_append, lines_append, lines_singleton, List.append_left_inj]
  exact append_comm_iff newline_not_mem_socketInitialized

/-- What waits is the line of the initialization itself. -/
theorem inOrder_socketInitialized : InOrder [socketInitialized] [asciiGetBytes "hello"] :=
  (inOrder_iff (by decide)).mpr ⟨1, rfl⟩

/-- One message waits, and comes out behind the message of the initialization. -/
theorem not_inOrder_hello :
    (run [asciiGetBytes "hello"] []).sent = asciiGetBytes "socket initialized!\nhello\n" ∧
      ¬ InOrder [asciiGetBytes "hello"] [] := by
  have hsent : (run [asciiGetBytes "hello"] []).sent =
      asciiGetBytes "socket initialized!\nhello\n" := by decide
  refine ⟨hsent, fun h => ?_⟩
  rw [InOrder, hsent] at h
  revert h
  decide

end TcpLogger
end Sp2Module
