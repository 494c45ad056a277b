import Sp2Module.BitFields
import Sp2Module.WriteList

/-!
# Messages

A command is put together by calls that fill its arrays, written as a message into the thread-local
storage, and read back by the other side. The calls count what they have added by its kind, and find
the place for the next one from the counts: the sent buffers come first, then those to receive and
to exchange.
-/

namespace Sp2Module.Ipc

open WriteList

abbrev Word := BitVec 32

inductive BufferType where
  | normal
  | type1
  | invalid
  | type3
deriving DecidableEq, Repr

def BufferType.value : BufferType → BitVec 64
  | .normal => 0
  | .type1 => 1
  | .invalid => 2
  | .type3 => 3

/-- The cast of a number of two bits. -/
def BufferType.ofValue (value : ℕ) : BufferType :=
  match value with
  | 0 => .normal
  | 1 => .type1
  | 2 => .invalid
  | _ => .type3

inductive BufferDirection where
  | send
  | recv
  | exch
deriving DecidableEq, Repr

/-- An entry of `Buffers`, `BufferSizes` and `BufferTypes`. -/
structure Buffer where
  buffer : BitVec 64
  size : BitVec 64
  type : BufferType
deriving DecidableEq, Repr

/-- An entry of `Statics`, `StaticSizes` and `StaticIndices`. -/
structure Static where
  buffer : BitVec 64
  size : BitVec 64
  index : BitVec 8
deriving DecidableEq, Repr

structure IpcCommand where
  numSend : ℕ
  numRecv : ℕ
  numExch : ℕ
  buffers : ℕ → Buffer
  numStaticIn : ℕ
  numStaticOut : ℕ
  statics : ℕ → Static
  sendPid : Bool
  numHandlesCopy : ℕ
  numHandlesMove : ℕ
  handles : ℕ → Word

def ipcMaxBuffers : ℕ := 8

def ipcMaxObjects : ℕ := 8

def noBuffer : Buffer := ⟨0, 0, .normal⟩

def noStatic : Static := ⟨0, 0, 0⟩

def ipcInitialize : IpcCommand := ⟨0, 0, 0, fun _ => noBuffer, 0, 0, fun _ => noStatic, false, 0, 0,
  fun _ => 0⟩

/-! ### The calls -/

namespace IpcCommand

/-- An entry behind the end of the array is not defined. -/
def setBuffer (off : ℕ) (b : Buffer) (cmd : IpcCommand) : Option IpcCommand :=
  if off < ipcMaxBuffers then some { cmd with
    buffers := fun i => if i = off then b else cmd.buffers i } else none

def setStatic (off : ℕ) (s : Static) (cmd : IpcCommand) : Option IpcCommand :=
  if off < ipcMaxBuffers then some { cmd with
    statics := fun i => if i = off then s else cmd.statics i } else none

def setHandle (off : ℕ) (h : Word) (cmd : IpcCommand) : Option IpcCommand :=
  if off < ipcMaxObjects then some { cmd with
    handles := fun i => if i = off then h else cmd.handles i } else none

def ipcAddSendBuffer (b : Buffer) (cmd : IpcCommand) : Option IpcCommand :=
  (cmd.setBuffer cmd.numSend b).map fun c => { c with numSend := cmd.numSend + 1 }

def ipcAddRecvBuffer (b : Buffer) (cmd : IpcCommand) : Option IpcCommand :=
  (cmd.setBuffer (cmd.numSend + cmd.numRecv) b).map fun c => { c with numRecv := cmd.numRecv + 1 }

def ipcAddExchBuffer (b : Buffer) (cmd : IpcCommand) : Option IpcCommand :=
  (cmd.setBuffer (cmd.numSend + cmd.numRecv + cmd.numExch) b).map fun c =>
    { c with numExch := cmd.numExch + 1 }

def ipcAddSendStatic (s : Static) (cmd : IpcCommand) : Option IpcCommand :=
  (cmd.setStatic cmd.numStaticIn s).map fun c => { c with numStaticIn := cmd.numStaticIn + 1 }

def ipcAddRecvStatic (s : Static) (cmd : IpcCommand) : Option IpcCommand :=
  (cmd.setStatic (cmd.numStaticIn + cmd.numStaticOut) s).map fun c =>
    { c with numStaticOut := cmd.numStaticOut + 1 }

def ipcSendPid (cmd : IpcCommand) : IpcCommand := { cmd with sendPid := true }

def ipcSendHandleCopy (h : Word) (cmd : IpcCommand) : Option IpcCommand :=
  (cmd.setHandle cmd.numHandlesCopy h).map fun c =>
    { c with numHandlesCopy := cmd.numHandlesCopy + 1 }

def ipcSendHandleMove (h : Word) (cmd : IpcCommand) : Option IpcCommand :=
  (cmd.setHandle (cmd.numHandlesCopy + cmd.numHandlesMove) h).map fun c =>
    { c with numHandlesMove := cmd.numHandlesMove + 1 }

/-- A call that adds to a command. -/
inductive Call where
  | sendBuffer (b : Buffer)
  | recvBuffer (b : Buffer)
  | exchBuffer (b : Buffer)
  | sendStatic (s : Static)
  | recvStatic (s : Static)
  | sendPid
  | sendHandleCopy (h : Word)
  | sendHandleMove (h : Word)
deriving DecidableEq, Repr

def apply (cmd : IpcCommand) : Call → Option IpcCommand
  | .sendBuffer b => cmd.ipcAddSendBuffer b
  | .recvBuffer b => cmd.ipcAddRecvBuffer b
  | .exchBuffer b => cmd.ipcAddExchBuffer b
  | .sendStatic s => cmd.ipcAddSendStatic s
  | .recvStatic s => cmd.ipcAddRecvStatic s
  | .sendPid => some cmd.ipcSendPid
  | .sendHandleCopy h => cmd.ipcSendHandleCopy h
  | .sendHandleMove h => cmd.ipcSendHandleMove h

def build (calls : List Call) : Option IpcCommand := calls.foldlM apply ipcInitialize

/-! ### The message -/

def numBuffers (cmd : IpcCommand) : ℕ := cmd.numSend + cmd.numRecv + cmd.numExch

def numHandles (cmd : IpcCommand) : ℕ := cmd.numHandlesCopy + cmd.numHandlesMove

def ctrl0 (cmd : IpcCommand) : Word :=
  (4 ||| BitVec.ofNat 64 cmd.numStaticIn <<< 16 ||| BitVec.ofNat 64 cmd.numSend <<< 20 |||
    BitVec.ofNat 64 cmd.numRecv <<< 24 ||| BitVec.ofNat 64 cmd.numExch <<< 28).setWidth 32

/-- There is a third word of control. -/
def special (cmd : IpcCommand) : Bool :=
  cmd.sendPid || 0 < cmd.numHandlesCopy || 0 < cmd.numHandlesMove

/-- The words of the raw data with 16 bytes for its alignment, and of the sizes of the statics to
receive. -/
def rawWords (cmd : IpcCommand) (sizeofRaw : ℕ) : ℕ :=
  sizeofRaw / 4 + 4 + (2 * cmd.numStaticOut + 3) / 4

def ctrl1 (cmd : IpcCommand) (sizeofRaw : ℕ) : Word :=
  (if 0 < cmd.numStaticOut then
      (BitVec.ofNat 64 (cmd.numStaticOut + 2) <<< 10).setWidth 32 else 0) |||
    (if cmd.special then 0x80000000 else 0) ||| BitVec.ofNat 32 (cmd.rawWords sizeofRaw)

def ctrl2 (cmd : IpcCommand) : Word :=
  (BitVec.ofNat 64 cmd.sendPid.toNat ||| BitVec.ofNat 64 cmd.numHandlesCopy <<< 1 |||
    BitVec.ofNat 64 cmd.numHandlesMove <<< 5).setWidth 32

end IpcCommand

/-- `IpcStaticSendDescriptor`. -/
def staticSendDescriptor (s : Static) : List (Word → Word) :=
  [put ((s.index.setWidth 64 ||| s.size <<< 16 ||| (s.buffer >>> 32 &&& 15) <<< 12 |||
    (s.buffer >>> 36 &&& 15) <<< 6).setWidth 32), put (s.buffer.setWidth 32)]

/-- `IpcBufferDescriptor`. -/
def bufferDescriptor (b : Buffer) : List (Word → Word) :=
  [put (b.size.setWidth 32), put (b.buffer.setWidth 32),
    put ((b.type.value ||| (b.buffer >>> 32 &&& 15) <<< 28 |||
      (b.buffer >>> 36) <<< 2).setWidth 32)]

/-- `IpcStaticRecvDescriptor`. -/
def staticRecvDescriptor (s : Static) : List (Word → Word) :=
  [put (s.buffer.setWidth 32), put ((s.buffer >>> 32 ||| s.size <<< 16).setWidth 32)]

/-- The size of a static to receive as a `u16`. -/
def staticSize (s : Static) : BitVec 16 :=
  if 0xFFFF < s.size.toNat then 0 else s.size.setWidth 16

namespace IpcCommand

/-- The third word of control, with the handles behind it; where a process identifier is sent, two
words are skipped and keep what was there. -/
def specialWords (cmd : IpcCommand) : List (Word → Word) :=
  if cmd.special then
    [put cmd.ctrl2] ++ (if cmd.sendPid then [id, id] else []) ++
      ((List.range cmd.numHandles).map cmd.handles).map put
  else []

/-- The words of the message up to the alignment of the raw data. -/
def header (cmd : IpcCommand) (sizeofRaw : ℕ) : List (Word → Word) :=
  [put cmd.ctrl0, put (cmd.ctrl1 sizeofRaw)] ++ cmd.specialWords ++
    ((List.range cmd.numStaticIn).map cmd.statics).flatMap staticSendDescriptor ++
    ((List.range cmd.numBuffers).map cmd.buffers).flatMap bufferDescriptor

/-- Two sizes of statics to receive are in a word; the last word keeps its upper half when their
number is odd. -/
def staticSizes (cmd : IpcCommand) : List (Word → Word) :=
  (List.range ((2 * cmd.numStaticOut + 3) / 4)).map fun j old =>
    (if 2 * j + 1 < cmd.numStaticOut then staticSize (cmd.statics (cmd.numStaticIn + (2 * j + 1)))
      else old.extractLsb' 16 16) ++
    (if 2 * j < cmd.numStaticOut then staticSize (cmd.statics (cmd.numStaticIn + 2 * j))
      else old.extractLsb' 0 16)

/-- `ipcPrepareHeader`: the words of the message, where the storage is aligned to 16 bytes, and the
index of the raw data. -/
def ipcPrepareHeader (cmd : IpcCommand) (sizeofRaw : ℕ) : List (Word → Word) × ℕ :=
  let header := cmd.header sizeofRaw
  let padding := (16 - 4 * header.length % 16) % 16 / 4
  (header ++ List.replicate (sizeofRaw / 4 + 4) id ++ cmd.staticSizes ++
    ((List.range cmd.numStaticOut).map fun i => cmd.statics (cmd.numStaticIn + i)).flatMap
      staticRecvDescriptor,
    header.length + padding)

end IpcCommand

/-! ### Reading a message -/

/-- What is filled in of the structure; the arrays up to their counts, the pointers as indices of
words. -/
structure IpcParsedCommand where
  commandType : ℕ
  pid : Option (BitVec 64)
  handles : List (Word × Bool)
  numStaticsOut : ℕ
  statics : List Static
  buffers : List (Buffer × BufferDirection)
  raw : ℕ
  rawWithoutPadding : ℕ
  rawSize : ℕ
deriving DecidableEq, Repr

def readStatic (tls : ℕ → Word) (buf : ℕ) : Static :=
  let packed := (tls buf).setWidth 64
  ⟨(tls (buf + 1)).setWidth 64 ||| (packed >>> 12 &&& 15) <<< 32 ||| (packed >>> 6 &&& 15) <<< 36,
    packed >>> 16, (packed &&& 63).setWidth 8⟩

def readBuffer (tls : ℕ → Word) (buf : ℕ) : Buffer :=
  let packed := (tls (buf + 2)).setWidth 64
  ⟨(tls (buf + 1)).setWidth 64 ||| (packed >>> 28) <<< 32 ||| (packed >>> 2 &&& 15) <<< 36,
    (tls buf).setWidth 64, .ofValue (packed &&& 3).toNat⟩

/-- The value 2 is a single descriptor, and from 3 on there are two descriptors less. -/
def readStaticsOut (ctrl1 : Word) : ℕ :=
  let numStaticsOut := (ctrl1 >>> 10 &&& 15).toNat
  let numStaticsOut := if numStaticsOut / 2 ≠ 0 then numStaticsOut - 1 else numStaticsOut
  if numStaticsOut / 2 ≠ 0 then numStaticsOut - 1 else numStaticsOut

/-- The identifier and the handles behind the third word of control, and where they end. -/
def readSpecial (tls : ℕ → Word) : Option (BitVec 64) × List (Word × Bool) × ℕ :=
  let ctrl2 := tls 2
  let hasPid := ctrl2 &&& 1 ≠ 0
  let buf := if hasPid then 5 else 3
  let numHandlesCopy := (ctrl2 >>> 1 &&& 15).toNat
  let numHandlesMove := (ctrl2 >>> 5 &&& 15).toNat
  let numHandles := numHandlesCopy + numHandlesMove
  (if hasPid then some ((tls 3).setWidth 64 ||| (tls 4).setWidth 64 <<< 32) else none,
    (List.range (min numHandles ipcMaxObjects)).map fun i =>
      (tls (buf + i), decide (i < numHandlesCopy)),
    buf + numHandles)

def direction (numSend numRecv i : ℕ) : BufferDirection :=
  if i < numSend then .send else if i < numSend + numRecv then .recv else .exch

def ipcParse (tls : ℕ → Word) : IpcParsedCommand :=
  let ctrl0 := tls 0
  let ctrl1 := tls 1
  let (pid, handles, buf) := if ctrl1 &&& 0x80000000 ≠ 0 then readSpecial tls else (none, [], 2)
  let numStatics := (ctrl0 >>> 16 &&& 15).toNat
  let numSend := (ctrl0 >>> 20 &&& 15).toNat
  let numRecv := (ctrl0 >>> 24 &&& 15).toNat
  let numExch := (ctrl0 >>> 28 &&& 15).toNat
  let numBuffers := numSend + numRecv + numExch
  let bufAfterStatics := buf + numStatics * 2
  let rawWithoutPadding := bufAfterStatics + numBuffers * 3
  { commandType := (ctrl0 &&& 0xFFFF).toNat
    pid := pid
    handles := handles
    numStaticsOut := readStaticsOut ctrl1
    statics := (List.range (min numStatics ipcMaxBuffers)).map fun i => readStatic tls (buf + 2 * i)
    buffers := (List.range (min numBuffers ipcMaxBuffers)).map fun i =>
      (readBuffer tls (bufAfterStatics + 3 * i), direction numSend numRecv i)
    raw := (4 * rawWithoutPadding + 15) / 16 * 4
    rawWithoutPadding := rawWithoutPadding
    rawSize := (ctrl1 &&& 0x1FF).toNat * 4 }

end Sp2Module.Ipc
