import Sp2Module.TcpLogger

/-!
# Formatted messages

`LogFormat` formats into a buffer of `0x1000` bytes on the stack and hands `Log` the result of
`vsnprintf` as the size: the length of the whole text, however much of it is in the buffer, or a
negative number, which is a large size. `Log` copies that many bytes out of the buffer.
-/

namespace Sp2Module

/-- What `vsnprintf` can end with: the formatted text, or a negative result and some bytes left in
the buffer. -/
inductive Formatted where
  | text (t : Bytes) (h : t.length < 2 ^ 31)
  | failed (ret : Int32) (h : ret.toInt < 0) (left : Bytes)

namespace Formatted

def bufferSize : ℕ := 0x1000

/-- The result of `vsnprintf`. -/
def ret : Formatted → Int32
  | text t _ => Int32.ofNat t.length
  | failed ret _ _ => ret

/-- The buffer, which has been cleared: what fits of the text, and a zero. -/
def buff : Formatted → Bytes
  | text t _ => overwrite (List.replicate bufferSize 0) 0 (t.take (bufferSize - 1) ++ [0])
  | failed _ _ left => overwrite (List.replicate bufferSize 0) 0 left

/-- The result as the `size_t` that `Log` takes. -/
def size (f : Formatted) : UInt64 := f.ret.toInt64.toUInt64

end Formatted

/-- `memcpy` out of a buffer; there is no result for bytes beyond its end. -/
def memcpyFrom (buff : Bytes) (size : ℕ) : Option Bytes :=
  if size ≤ buff.length then some (buff.take size) else none

def TcpLogger.logFormat (f : Formatted) (l : TcpLogger) : Option TcpLogger :=
  (memcpyFrom f.buff f.size.toNat).map fun data => l.log data

/-- The file log; `answers` tells whether the size of the file can be queried. -/
structure FsLogger where
  fsInit : Bool
  answers : Bool
  file : Bytes
deriving DecidableEq, Repr

namespace FsLogger

/-- The first `size` bytes of the data, at the end of the file. -/
def logRaw (data : Bytes) (size : ℕ) (l : FsLogger) : FsLogger :=
  if l.fsInit ∧ l.answers then { l with file := l.file ++ data.take size } else l

def log (data : Bytes) (l : FsLogger) : FsLogger :=
  l.logRaw (data ++ [10, 0]) (data.length + 1)

def logFormat (f : Formatted) (l : FsLogger) : Option FsLogger :=
  (memcpyFrom f.buff f.size.toNat).map fun data => l.log data

end FsLogger

/-! ### What is to be logged -/

/-- One message is sent or queued, with its newline. -/
def TcpLogger.Logs (l : TcpLogger) (m : Bytes) (l' : TcpLogger) : Prop :=
  l' = if l.loggerInit then { l with sent := l.sent ++ line m }
    else { l with msgQueue := some (l.msgQueue.getD [] ++ [line m ++ [0]]) }

/-- One message is added to the file, with its newline, where there is a file. -/
def FsLogger.Logs (l : FsLogger) (m : Bytes) (l' : FsLogger) : Prop :=
  l' = if l.fsInit ∧ l.answers then { l with file := l.file ++ TcpLogger.line m } else l

/-- The message for a formatted text: as much of it as fits into the buffer with its zero. -/
def Formatted.IsMessage : Formatted → Bytes → Prop
  | text t _, m => m = t.take (min t.length 0xFFF)
  | failed _ _ _, _ => True

theorem TcpLogger.log_logs (l : TcpLogger) (data : Bytes) : l.Logs data (l.log data) := by
  unfold TcpLogger.Logs TcpLogger.log
  split_ifs
  · rw [sendRaw, take_line]
  · rw [addToQueue, line, List.append_assoc]
    rfl

theorem FsLogger.log_logs (l : FsLogger) (data : Bytes) : l.Logs data (l.log data) := by
  unfold FsLogger.Logs FsLogger.log logRaw
  rw [TcpLogger.take_line]

theorem TcpLogger.Logs.unique {l l' : TcpLogger} {m m' : Bytes} (h : l.Logs m l')
    (h' : l.Logs m' l') : m = m' := by
  unfold TcpLogger.Logs at h h'
  rw [h] at h'
  split_ifs at h'
  · simpa [line] using h'
  · simpa [line] using h'

/-- A logger with a file tells messages apart. -/
theorem FsLogger.Logs.unique {l l' : FsLogger} {m m' : Bytes} (hl : l.fsInit ∧ l.answers)
    (h : l.Logs m l') (h' : l.Logs m' l') : m = m' := by
  unfold FsLogger.Logs at h h'
  rw [h, if_pos hl, if_pos hl] at h'
  simpa [TcpLogger.line] using h'

namespace Formatted

variable {f : Formatted} {t : Bytes}

theorem length_buff (f : Formatted) : f.buff.length = bufferSize := by
  cases f with
  | text t h => rw [buff, length_overwrite, List.length_replicate]
  | failed ret h left => rw [buff, length_overwrite, List.length_replicate]

/-- A negative result is a size beyond every buffer. -/
theorem toNat_size (f : Formatted) :
    (f.size.toNat : ℤ) = if 0 ≤ f.ret.toInt then f.ret.toInt else f.ret.toInt + 2 ^ 64 := by
  have hbmod : (f.size.toNat : ℤ).bmod (2 ^ 64) = f.ret.toInt := by
    rw [← Int32.toInt_toInt64]
    exact (BitVec.toInt_eq_toNat_bmod _).symm
  have hlt := f.size.toNat_lt
  rw [Int.bmod_def] at hbmod
  split_ifs with h <;> omega

theorem toInt_ret_text (h : t.length < 2 ^ 31) : (text t h).ret.toInt = t.length :=
  Int32.toInt_ofNat_of_lt h

/-- What is copied of a text that fits into the buffer is the text. -/
theorem take_buff_text (h : t.length < 2 ^ 31) (hfit : t.length ≤ 0xFFF) :
    (text t h).buff.take t.length = t := by
  have htake : t.take (bufferSize - 1) = t := List.take_of_length_le hfit
  rw [buff, htake, overwrite_eq_append, List.take_zero, List.nil_append, List.append_assoc,
    List.take_left]
  rw [List.length_replicate, List.length_append, List.length_singleton, bufferSize]
  omega

/-- The copy is defined and is the message exactly where the whole text fits. -/
theorem memcpyFrom_isMessage_iff (f : Formatted) :
    (∃ data, memcpyFrom f.buff f.size.toNat = some data ∧ f.IsMessage data) ↔
      0 ≤ f.ret.toInt ∧ f.ret.toInt ≤ 0xFFF := by
  have hsize := f.toNat_size
  have hret := f.ret.le_toInt
  have hbuff := f.length_buff
  constructor
  · rintro ⟨data, hdata, hm⟩
    unfold memcpyFrom at hdata
    split_ifs at hdata with hle
    cases hdata
    rw [hbuff, bufferSize] at hle
    split_ifs at hsize with hnonneg
    · refine ⟨hnonneg, ?_⟩
      by_contra hlong
      cases f with
      | failed ret hneg left => exact absurd hnonneg (not_le.mpr hneg)
      | text t ht =>
        rw [toInt_ret_text ht] at hsize hlong
        have hlen := congrArg List.length hm
        rw [List.length_take, List.length_take, hbuff, bufferSize] at hlen
        omega
    · omega
  · rintro ⟨hnonneg, hfit⟩
    cases f with
    | failed ret hneg left => exact absurd hnonneg (not_le.mpr hneg)
    | text t ht =>
      rw [if_pos hnonneg, toInt_ret_text ht] at hsize
      rw [toInt_ret_text ht] at hfit
      have hsize' : (text t ht).size.toNat = t.length := by omega
      refine ⟨t, ?_, ?_⟩
      · rw [memcpyFrom, hsize', if_pos (by rw [hbuff, bufferSize]; omega),
          take_buff_text ht (by omega)]
      · exact (List.take_of_length_le (by omega)).symm

/-- Both loggers log the message of a formatted text, whatever state they are in, exactly where the
whole text fits into the buffer. -/
theorem logFormat_logs_iff (f : Formatted) :
    ((∀ l : TcpLogger, ∃ m l', TcpLogger.logFormat f l = some l' ∧ f.IsMessage m ∧ l.Logs m l') ↔
      0 ≤ f.ret.toInt ∧ f.ret.toInt ≤ 0xFFF) ∧
    ((∀ l : FsLogger, ∃ m l', FsLogger.logFormat f l = some l' ∧ f.IsMessage m ∧ l.Logs m l') ↔
      0 ≤ f.ret.toInt ∧ f.ret.toInt ≤ 0xFFF) := by
  rw [← memcpyFrom_isMessage_iff]
  constructor
  · constructor
    · intro h
      obtain ⟨m, l', hl', hm, hlogs⟩ := h .start
      obtain ⟨data, hdata, rfl⟩ := Option.map_eq_some_iff.mp hl'
      exact ⟨data, hdata, (TcpLogger.log_logs _ data).unique hlogs ▸ hm⟩
    · rintro ⟨data, hdata, hm⟩ l
      exact ⟨data, l.log data, by rw [TcpLogger.logFormat, hdata, Option.map_some], hm,
        l.log_logs data⟩
  · constructor
    · intro h
      obtain ⟨m, l', hl', hm, hlogs⟩ := h ⟨true, true, []⟩
      obtain ⟨data, hdata, rfl⟩ := Option.map_eq_some_iff.mp hl'
      exact ⟨data, hdata, (FsLogger.log_logs _ data).unique ⟨rfl, rfl⟩ hlogs ▸ hm⟩
    · rintro ⟨data, hdata, hm⟩ l
      exact ⟨data, l.log data, by rw [FsLogger.logFormat, hdata, Option.map_some], hm,
        l.log_logs data⟩

/-- A text one byte longer than the buffer is copied beyond its end. -/
theorem logFormat_beyond_buffer :
    ∃ f : Formatted, f.ret = 0x1001 ∧ memcpyFrom f.buff f.size.toNat = none ∧
      ¬ ∃ m l', TcpLogger.logFormat f .start = some l' ∧ f.IsMessage m ∧
        TcpLogger.start.Logs m l' := by
  have hlen : (List.replicate 0x1001 (65 : UInt8)).length = 0x1001 := List.length_replicate
  have hret := toInt_ret_text (t := List.replicate 0x1001 65) (by omega)
  have hsize := toNat_size (text (List.replicate 0x1001 65) (by omega))
  rw [if_pos (by omega), hret] at hsize
  have hnone : memcpyFrom (text (List.replicate 0x1001 65) (by omega)).buff
      (text (List.replicate 0x1001 65) (by omega)).size.toNat = none := by
    rw [memcpyFrom, if_neg]
    rw [length_buff, bufferSize]
    omega
  refine ⟨text (List.replicate 0x1001 65) (by omega), ?_, hnone, ?_⟩
  · rw [ret, hlen]
    rfl
  · rintro ⟨m, l', hl', -⟩
    rw [TcpLogger.logFormat, hnone] at hl'
    cases hl'

end Formatted

end Sp2Module
