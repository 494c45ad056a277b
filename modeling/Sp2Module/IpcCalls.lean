import Mathlib.Data.List.Induction
import Sp2Module.GroupedTable
import Sp2Module.IpcRoundTrip

/-!
# Commands and the calls that fill them

The counts of a command and the statics it sends are those of the calls, in any order of them. Its
buffers and its handles are what has been added, one after the other, exactly when no call writes
over what an earlier one has added: the place of a sent buffer is in front of those to receive, and
none of them is moved for it.
-/

namespace Sp2Module.Ipc

open WriteList GroupedTable

namespace IpcCommand.Call

def addedBuffer : Call → Option (Buffer × BufferDirection)
  | .sendBuffer b => some (b, .send)
  | .recvBuffer b => some (b, .recv)
  | .exchBuffer b => some (b, .exch)
  | _ => none

def sentStatic : Call → Option Static
  | .sendStatic s => some s
  | _ => none

def receivedStatic : Call → Option Static
  | .recvStatic s => some s
  | _ => none

/-- A handle, and whether it is copied. -/
def addedHandle : Call → Option (Word × Bool)
  | .sendHandleCopy h => some (h, true)
  | .sendHandleMove h => some (h, false)
  | _ => none

end IpcCommand.Call

namespace IpcCommand

/-- The command after a call, where the array has a place for what it adds. -/
def after (cmd : IpcCommand) : Call → IpcCommand
  | .sendBuffer b => { cmd with
    buffers := fun i => if i = cmd.numSend then b else cmd.buffers i
    numSend := cmd.numSend + 1 }
  | .recvBuffer b => { cmd with
    buffers := fun i => if i = cmd.numSend + cmd.numRecv then b else cmd.buffers i
    numRecv := cmd.numRecv + 1 }
  | .exchBuffer b => { cmd with
    buffers := fun i => if i = cmd.numSend + cmd.numRecv + cmd.numExch then b else cmd.buffers i
    numExch := cmd.numExch + 1 }
  | .sendStatic s => { cmd with
    statics := fun i => if i = cmd.numStaticIn then s else cmd.statics i
    numStaticIn := cmd.numStaticIn + 1 }
  | .recvStatic s => { cmd with
    statics := fun i => if i = cmd.numStaticIn + cmd.numStaticOut then s else cmd.statics i
    numStaticOut := cmd.numStaticOut + 1 }
  | .sendPid => { cmd with sendPid := true }
  | .sendHandleCopy h => { cmd with
    handles := fun i => if i = cmd.numHandlesCopy then h else cmd.handles i
    numHandlesCopy := cmd.numHandlesCopy + 1 }
  | .sendHandleMove h => { cmd with
    handles := fun i => if i = cmd.numHandlesCopy + cmd.numHandlesMove then h else cmd.handles i
    numHandlesMove := cmd.numHandlesMove + 1 }

end IpcCommand

open IpcCommand (Call build)

/-- The arrays have room for all that is added. -/
structure RoomFor (calls : List Call) : Prop where
  buffers : (calls.filterMap Call.addedBuffer).length ≤ ipcMaxBuffers
  statics : (calls.filterMap Call.sentStatic).length +
    (calls.filterMap Call.receivedStatic).length ≤ ipcMaxBuffers
  handles : (calls.filterMap Call.addedHandle).length ≤ ipcMaxObjects

variable {calls : List Call} {call : Call} {cmd : IpcCommand}

theorem filterMap_snoc {α β : Type*} (f : α → Option β) (l : List α) (a : α) :
    (l ++ [a]).filterMap f = l.filterMap f ++ (f a).toList := by
  rw [List.filterMap_append]
  cases h : f a with
  | none => rw [List.filterMap_cons_none h, List.filterMap_nil, Option.toList_none]
  | some b => rw [List.filterMap_cons_some h, List.filterMap_nil, Option.toList_some]

theorem RoomFor.of_append (h : RoomFor (calls ++ [call])) : RoomFor calls := by
  obtain ⟨hbuffers, hstatics, hhandles⟩ := h
  simp only [filterMap_snoc, List.length_append] at hbuffers hstatics hhandles
  exact ⟨by omega, by omega, by omega⟩

/-! ### One call -/

theorem numBuffers_after (cmd : IpcCommand) (call : Call) :
    (cmd.after call).numBuffers = cmd.numBuffers + call.addedBuffer.toList.length := by
  cases call <;> simp only [IpcCommand.after, IpcCommand.numBuffers, Call.addedBuffer,
    Option.toList_some, Option.toList_none, List.length_singleton, List.length_nil] <;> omega

theorem numHandles_after (cmd : IpcCommand) (call : Call) :
    (cmd.after call).numHandles = cmd.numHandles + call.addedHandle.toList.length := by
  cases call <;> simp only [IpcCommand.after, IpcCommand.numHandles, Call.addedHandle,
    Option.toList_some, Option.toList_none, List.length_singleton, List.length_nil] <;> omega

theorem numStaticOut_after (cmd : IpcCommand) (call : Call) :
    (cmd.after call).numStaticOut = cmd.numStaticOut + call.receivedStatic.toList.length := by
  cases call <;> rfl

theorem sendPid_after (cmd : IpcCommand) (call : Call) :
    (cmd.after call).sendPid = (cmd.sendPid || decide (call = .sendPid)) := by
  cases call <;> simp [IpcCommand.after]

theorem heldStatics_after (cmd : IpcCommand) (call : Call) :
    (cmd.after call).heldStatics = cmd.heldStatics ++ call.sentStatic.toList := by
  cases call with
  | sendStatic s => exact map_range_succ_write
  | recvStatic s =>
    -- its cell is behind those that are sent
    have hsame : (List.range cmd.numStaticIn).map (write _ s cmd.statics) = cmd.heldStatics :=
      map_range_write_of_le (Nat.le_add_right cmd.numStaticIn cmd.numStaticOut)
    exact hsame.trans (List.append_nil _).symm
  | _ => exact (List.append_nil _).symm

/-- A cell of the buffers is changed by a call only to what it adds. -/
theorem buffers_after (cmd : IpcCommand) (call : Call) (i : ℕ) :
    (cmd.after call).buffers i = cmd.buffers i ∨
      (cmd.after call).buffers i ∈ call.addedBuffer.toList.map Prod.fst := by
  cases call with
  | sendBuffer b | recvBuffer b | exchBuffer b =>
    simp only [IpcCommand.after, Call.addedBuffer, Option.toList_some, List.map_singleton,
      List.mem_singleton]
    split_ifs
    · exact .inr rfl
    · exact .inl rfl
  | _ => exact .inl rfl

/-! ### Any order of the calls -/

/-- What a command has of the calls in any order of them. -/
structure Counted (cmd : IpcCommand) (calls : List Call) : Prop where
  numBuffers : cmd.numBuffers = (calls.filterMap Call.addedBuffer).length
  statics : cmd.heldStatics = calls.filterMap Call.sentStatic
  numStaticOut : cmd.numStaticOut = (calls.filterMap Call.receivedStatic).length
  numHandles : cmd.numHandles = (calls.filterMap Call.addedHandle).length
  sendPid : cmd.sendPid = decide (.sendPid ∈ calls)
  buffers : ∀ i, cmd.buffers i = noBuffer ∨
    cmd.buffers i ∈ (calls.filterMap Call.addedBuffer).map Prod.fst

theorem counted_ipcInitialize : Counted ipcInitialize [] :=
  ⟨rfl, rfl, rfl, rfl, rfl, fun _ => .inl rfl⟩

theorem Counted.numStaticIn (h : Counted cmd calls) :
    cmd.numStaticIn = (calls.filterMap Call.sentStatic).length := by
  rw [← h.statics, IpcCommand.heldStatics, List.length_map, List.length_range]

theorem Counted.after (h : Counted cmd calls) (call : Call) :
    Counted (cmd.after call) (calls ++ [call]) where
  numBuffers := by rw [numBuffers_after, filterMap_snoc, List.length_append, h.numBuffers]
  statics := by rw [heldStatics_after, filterMap_snoc, h.statics]
  numStaticOut := by rw [numStaticOut_after, filterMap_snoc, List.length_append, h.numStaticOut]
  numHandles := by rw [numHandles_after, filterMap_snoc, List.length_append, h.numHandles]
  sendPid := by
    rw [sendPid_after, h.sendPid, ← Bool.decide_or]
    simp only [List.mem_append, List.mem_singleton, eq_comm]
  buffers := by
    intro i
    rw [filterMap_snoc, List.map_append, List.mem_append]
    rcases buffers_after cmd call i with hsame | hadded
    · rw [hsame]
      exact (h.buffers i).imp_right .inl
    · exact .inr (.inr hadded)

theorem Counted.apply (h : Counted cmd calls) (hroom : RoomFor (calls ++ [call])) :
    cmd.apply call = some (cmd.after call) := by
  obtain ⟨hbuffers, hstatics, hhandles⟩ := hroom
  simp only [filterMap_snoc, List.length_append, ← h.numBuffers, ← h.numStaticOut, ← h.numHandles,
    ← h.numStaticIn] at hbuffers hstatics hhandles
  cases call with
  | sendBuffer b =>
    have hoff : cmd.numSend < ipcMaxBuffers :=
      lt_of_le_of_lt (by rw [IpcCommand.numBuffers]; omega) hbuffers
    rw [IpcCommand.apply, IpcCommand.ipcAddSendBuffer, IpcCommand.setBuffer, if_pos hoff]
    rfl
  | recvBuffer b =>
    have hoff : cmd.numSend + cmd.numRecv < ipcMaxBuffers :=
      lt_of_le_of_lt (Nat.le_add_right _ _) hbuffers
    rw [IpcCommand.apply, IpcCommand.ipcAddRecvBuffer, IpcCommand.setBuffer, if_pos hoff]
    rfl
  | exchBuffer b =>
    have hoff : cmd.numSend + cmd.numRecv + cmd.numExch < ipcMaxBuffers := hbuffers
    rw [IpcCommand.apply, IpcCommand.ipcAddExchBuffer, IpcCommand.setBuffer, if_pos hoff]
    rfl
  | sendStatic s =>
    have hoff : cmd.numStaticIn < ipcMaxBuffers :=
      lt_of_lt_of_le (Nat.lt_succ_self _) ((Nat.le_add_right _ _).trans hstatics)
    rw [IpcCommand.apply, IpcCommand.ipcAddSendStatic, IpcCommand.setStatic, if_pos hoff]
    rfl
  | recvStatic s =>
    have hoff : cmd.numStaticIn + cmd.numStaticOut < ipcMaxBuffers := hstatics
    rw [IpcCommand.apply, IpcCommand.ipcAddRecvStatic, IpcCommand.setStatic, if_pos hoff]
    rfl
  | sendPid => rfl
  | sendHandleCopy x =>
    have hoff : cmd.numHandlesCopy < ipcMaxObjects :=
      lt_of_le_of_lt (Nat.le_add_right _ _) hhandles
    rw [IpcCommand.apply, IpcCommand.ipcSendHandleCopy, IpcCommand.setHandle, if_pos hoff]
    rfl
  | sendHandleMove x =>
    have hoff : cmd.numHandlesCopy + cmd.numHandlesMove < ipcMaxObjects := hhandles
    rw [IpcCommand.apply, IpcCommand.ipcSendHandleMove, IpcCommand.setHandle, if_pos hoff]
    rfl

/-- The command after all of the calls. -/
def filled (calls : List Call) : IpcCommand := calls.foldl IpcCommand.after ipcInitialize

theorem filled_append (calls : List Call) (call : Call) :
    filled (calls ++ [call]) = (filled calls).after call := by
  rw [filled, filled, List.foldl_append, List.foldl_cons, List.foldl_nil]

theorem counted_filled (calls : List Call) : Counted (filled calls) calls := by
  induction calls using List.reverseRecOn with
  | nil => exact counted_ipcInitialize
  | append_singleton calls call ih =>
    rw [filled_append]
    exact ih.after call

/-- Where there is room for all that is added, the calls succeed. -/
theorem build_eq_filled (hroom : RoomFor calls) : build calls = some (filled calls) := by
  induction calls using List.reverseRecOn with
  | nil => rfl
  | append_singleton calls call ih =>
    rw [build, List.foldlM_append]
    change (build calls).bind _ = _
    rw [ih hroom.of_append, Option.bind_some, filled_append]
    simp only [List.foldlM_cons, List.foldlM_nil, (counted_filled calls).apply hroom]
    rfl

/-! ### The tables of a command -/

namespace IpcCommand

def buffersTable (cmd : IpcCommand) : Table Buffer BufferDirection where
  cells := cmd.buffers
  size := cmd.numBuffers
  classAt := direction cmd.numSend cmd.numRecv
  place
    | .send => cmd.numSend
    | .recv => cmd.numSend + cmd.numRecv
    | .exch => cmd.numSend + cmd.numRecv + cmd.numExch

def handlesTable (cmd : IpcCommand) : Table Word Bool where
  cells := cmd.handles
  size := cmd.numHandles
  classAt := fun i => decide (i < cmd.numHandlesCopy)
  place copied := if copied then cmd.numHandlesCopy else cmd.numHandlesCopy + cmd.numHandlesMove

end IpcCommand

/-- The value of the enumeration. -/
def BufferDirection.value : BufferDirection → ℕ
  | .send => 0
  | .recv => 1
  | .exch => 2

/-- Copied handles come before those that are moved. -/
def handleRank (copied : Bool) : ℕ := if copied then 0 else 1

theorem grouped_buffersTable (cmd : IpcCommand) :
    cmd.buffersTable.Grouped BufferDirection.value where
  place_le := by
    intro d
    cases d <;> simp only [IpcCommand.buffersTable, IpcCommand.numBuffers] <;> omega
  lt_place_iff := by
    intro d i hi
    have hi : i < cmd.numSend + cmd.numRecv + cmd.numExch := hi
    simp only [IpcCommand.buffersTable, direction]
    cases d <;> split_ifs <;> simp only [BufferDirection.value] <;> omega

theorem grouped_handlesTable (cmd : IpcCommand) : cmd.handlesTable.Grouped handleRank where
  place_le := by
    intro copied
    cases copied with
    | true => exact Nat.le_add_right _ _
    | false => exact le_rfl
  lt_place_iff := by
    intro copied i hi
    have hi : i < cmd.numHandlesCopy + cmd.numHandlesMove := hi
    simp only [IpcCommand.handlesTable, handleRank, decide_eq_true_eq]
    cases copied <;> split_ifs <;> simp <;> omega

/-- A call adds to the buffers in its direction. -/
theorem adds_buffersTable {b : Buffer} {d : BufferDirection} (cmd : IpcCommand)
    (hcall : call.addedBuffer = some (b, d)) :
    Table.Adds cmd.buffersTable (cmd.after call).buffersTable b d := by
  cases call with
  | sendBuffer b' | recvBuffer b' =>
    cases hcall
    constructor
    case cells => rfl
    case size =>
      simp only [IpcCommand.after, IpcCommand.buffersTable, IpcCommand.numBuffers]
      omega
    case same =>
      intro hplace i hi
      simp only [IpcCommand.after, IpcCommand.buffersTable, IpcCommand.numBuffers,
        direction] at hplace hi ⊢
      split_ifs <;> first | rfl | omega
    case last =>
      intro hplace
      simp only [IpcCommand.after, IpcCommand.buffersTable, IpcCommand.numBuffers,
        direction] at hplace ⊢
      split_ifs <;> first | rfl | omega
  | exchBuffer b' =>
    cases hcall
    constructor
    case cells => rfl
    case size => rfl
    case same => exact fun _ _ _ => rfl
    case last =>
      intro _
      simp only [IpcCommand.after, IpcCommand.buffersTable, IpcCommand.numBuffers, direction]
      split_ifs <;> first | rfl | omega
  | _ => cases hcall

theorem adds_handlesTable {h : Word} {copied : Bool} (cmd : IpcCommand)
    (hcall : call.addedHandle = some (h, copied)) :
    Table.Adds cmd.handlesTable (cmd.after call).handlesTable h copied := by
  cases call with
  | sendHandleCopy h' =>
    cases hcall
    have hsize : cmd.handlesTable.place true = cmd.handlesTable.size → cmd.numHandlesMove = 0 :=
      fun hplace => by
        change cmd.numHandlesCopy = cmd.numHandlesCopy + cmd.numHandlesMove at hplace
        omega
    constructor
    case cells => rfl
    case size => exact Nat.add_right_comm _ _ _
    case same =>
      intro hplace i hi
      have hi : i < cmd.numHandlesCopy + cmd.numHandlesMove := hi
      have hmove := hsize hplace
      change decide (i < cmd.numHandlesCopy + 1) = decide (i < cmd.numHandlesCopy)
      rw [decide_eq_decide]
      omega
    case last =>
      intro hplace
      have hmove := hsize hplace
      change decide (cmd.numHandlesCopy + cmd.numHandlesMove < cmd.numHandlesCopy + 1) = true
      rw [decide_eq_true_eq]
      omega
  | sendHandleMove h' =>
    cases hcall
    constructor
    case cells => rfl
    case size => rfl
    case same => exact fun _ _ _ => rfl
    case last =>
      intro _
      change decide (cmd.numHandlesCopy + cmd.numHandlesMove < cmd.numHandlesCopy) = false
      exact decide_eq_false (Nat.not_lt.mpr (Nat.le_add_right _ _))
  | _ => cases hcall

/-- A table of the command is filled by the calls that add to it, and left by the others. -/
theorem filled_table {α κ : Type*} {table : IpcCommand → Table α κ}
    {added : Call → Option (α × κ)} {rank : κ → ℕ} {empty : α}
    (hcells : ∀ i, (table ipcInitialize).cells i = empty) (hsize : (table ipcInitialize).size = 0)
    (hgrouped : ∀ cmd, (table cmd).Grouped rank)
    (hadds : ∀ cmd call x k, added call = some (x, k) →
      Table.Adds (table cmd) (table (IpcCommand.after cmd call)) x k)
    (hsame : ∀ cmd call, added call = none → table (IpcCommand.after cmd call) = table cmd)
    (calls : List Call) :
    Table.Filled rank empty (table (filled calls)) (calls.filterMap added) := by
  induction calls using List.reverseRecOn with
  | nil => exact .nil hcells hsize
  | append_singleton calls call ih =>
    rw [filled_append, filterMap_snoc]
    cases hcall : added call with
    | some p => exact ih.add (hgrouped _) (hadds _ call p.1 p.2 hcall)
    | none =>
      rw [hsame _ call hcall, Option.toList_none, List.append_nil]
      exact ih

theorem filled_buffersTable (calls : List Call) : Table.Filled BufferDirection.value noBuffer
    (filled calls).buffersTable (calls.filterMap Call.addedBuffer) := by
  refine filled_table (fun _ => rfl) rfl grouped_buffersTable
    (fun cmd _ _ _ hcall => adds_buffersTable cmd hcall) (fun cmd call hcall => ?_) calls
  cases call <;> first | rfl | cases hcall

theorem filled_handlesTable (calls : List Call) : Table.Filled handleRank 0
    (filled calls).handlesTable (calls.filterMap Call.addedHandle) := by
  refine filled_table (fun _ => rfl) rfl grouped_handlesTable
    (fun cmd _ _ _ hcall => adds_handlesTable cmd hcall) (fun cmd call hcall => ?_) calls
  cases call <;> first | rfl | cases hcall

/-! ### Messages -/

/-- The words in front of the raw data are those that have been prepared. -/
def Message (cmd : IpcCommand) (sizeofRaw : ℕ) (old tls : ℕ → Word) : Prop :=
  ∀ i < (cmd.ipcPrepareHeader sizeofRaw).2, tls i = perform (cmd.ipcPrepareHeader sizeofRaw).1 old i

/-- What is added has room in the command and in the fields of the message. -/
structure Sendable (sizeofRaw : ℕ) (calls : List Call) : Prop extends RoomFor calls where
  buffersFit : ∀ p ∈ calls.filterMap Call.addedBuffer, p.1.Fits
  staticsFit : ∀ s ∈ calls.filterMap Call.sentStatic, s.Fits
  rawWords : sizeofRaw / 4 + 4 + (2 * (calls.filterMap Call.receivedStatic).length + 3) / 4 < 2 ^ 9

/-- Buffers come by their direction, and copied handles in front of those that are moved. -/
structure InOrder (calls : List Call) : Prop where
  buffers : Table.Sorted BufferDirection.value (calls.filterMap Call.addedBuffer)
  handles : Table.Sorted handleRank (calls.filterMap Call.addedHandle)

variable {sizeofRaw : ℕ} {old tls : ℕ → Word}

theorem written_of_message (h : Message cmd sizeofRaw old tls) :
    Written old tls 0 (cmd.header sizeofRaw) := by
  have hall : Written old (perform (cmd.ipcPrepareHeader sizeofRaw).1 old) 0
      (cmd.header sizeofRaw ++ List.replicate (sizeofRaw / 4 + 4) id ++ cmd.staticSizes ++ _) :=
    written_perform _ old
  have hheader := (written_append.mp (written_append.mp (written_append.mp hall).1).1).1
  refine hheader.congr fun i _ hi => ?_
  rw [Nat.zero_add] at hi
  exact h i (hi.trans_le (Nat.le_add_right _ _))

theorem fits_filled (h : Sendable sizeofRaw calls) : (filled calls).Fits sizeofRaw := by
  have hcounted := counted_filled calls
  constructor
  case buffers =>
    intro i _
    rcases hcounted.buffers i with hempty | hadded
    · rw [hempty]
      decide
    · obtain ⟨p, hp, heq⟩ := List.mem_map.mp hadded
      rw [← heq]
      exact h.buffersFit p hp
  case numBuffers =>
    rw [hcounted.numBuffers]
    exact h.buffers
  case statics =>
    intro i hi
    refine h.staticsFit _ ?_
    rw [← hcounted.statics]
    exact List.mem_map.mpr ⟨i, List.mem_range.mpr hi, rfl⟩
  case numStatics =>
    rw [hcounted.numStaticIn, hcounted.numStaticOut]
    exact h.statics
  case numHandles =>
    rw [hcounted.numHandles]
    exact h.handles
  case rawWords =>
    rw [IpcCommand.rawWords, hcounted.numStaticOut]
    exact h.rawWords

/-- What is to be read of the message, from what has been added. -/
def expected (calls : List Call) (old : ℕ → Word) (raw rawWithoutPadding rawSize : ℕ) :
    IpcParsedCommand where
  commandType := 4
  pid := if Call.sendPid ∈ calls then
    some ((old 3).setWidth 64 ||| (old 4).setWidth 64 <<< 32) else none
  handles := calls.filterMap Call.addedHandle
  numStaticsOut := (calls.filterMap Call.receivedStatic).length
  statics := calls.filterMap Call.sentStatic
  buffers := calls.filterMap Call.addedBuffer
  raw := raw
  rawWithoutPadding := rawWithoutPadding
  rawSize := rawSize

theorem ipcParse_filled (h : Sendable sizeofRaw calls) (horder : InOrder calls)
    (hwritten : Written old tls 0 ((filled calls).header sizeofRaw)) :
    ipcParse tls = expected calls old ((filled calls).ipcPrepareHeader sizeofRaw).2
      ((filled calls).header sizeofRaw).length ((filled calls).rawWords sizeofRaw * 4) := by
  have hcounted := counted_filled calls
  have hbuffers : (filled calls).heldBuffers = _ :=
    (filled_buffersTable calls).held_of_sorted horder.buffers
  have hhandles : (filled calls).heldHandles = _ :=
    (filled_handlesTable calls).held_of_sorted horder.handles
  rw [ipcParse_of_written hwritten (fits_filled h), hbuffers, hhandles, hcounted.statics,
    hcounted.numStaticOut, IpcCommand.heldPid, hcounted.sendPid]
  simp only [expected, decide_eq_true_eq]

/-- What has been added in order is read of the message, one after the other. -/
theorem ipcParse_of_inOrder (h : Sendable sizeofRaw calls) (horder : InOrder calls) :
    ∃ cmd, build calls = some cmd ∧ ∀ old tls, Message cmd sizeofRaw old tls →
      ipcParse tls =
        { commandType := 4
          pid := if Call.sendPid ∈ calls then
            some ((old 3).setWidth 64 ||| (old 4).setWidth 64 <<< 32) else none
          handles := calls.filterMap Call.addedHandle
          numStaticsOut := (calls.filterMap Call.receivedStatic).length
          statics := calls.filterMap Call.sentStatic
          buffers := calls.filterMap Call.addedBuffer
          raw := (cmd.ipcPrepareHeader sizeofRaw).2
          rawWithoutPadding := (cmd.header sizeofRaw).length
          rawSize := cmd.rawWords sizeofRaw * 4 } :=
  ⟨filled calls, build_eq_filled h.toRoomFor, fun _ _ hmessage =>
    ipcParse_filled h horder (written_of_message hmessage)⟩

/-- A query with buffers in two directions, a static and a handle of each kind. -/
def queryCalls : List Call :=
  [.sendPid, .sendBuffer ⟨0x8000, 0x10, .normal⟩, .sendStatic ⟨0x9000, 0x20, 0⟩, .sendHandleCopy 5,
    .recvBuffer ⟨0x7100000000, 0x1000, .normal⟩, .sendHandleMove 7]

theorem sendable_queryCalls {sizeofRaw : ℕ} (h : sizeofRaw / 4 + 4 < 2 ^ 9) :
    Sendable sizeofRaw queryCalls :=
  ⟨⟨by decide, by decide, by decide⟩, by decide, by decide, h⟩

theorem inOrder_queryCalls : InOrder queryCalls :=
  ⟨List.pairwise_pair.mpr (by decide), List.pairwise_pair.mpr (by decide)⟩

theorem ipcParse_of_inOrder_query : ∃ cmd, build queryCalls = some cmd ∧
    ∀ old tls, Message cmd 24 old tls →
      ipcParse tls =
        { commandType := 4
          pid := some ((old 3).setWidth 64 ||| (old 4).setWidth 64 <<< 32)
          handles := [(5, true), (7, false)]
          numStaticsOut := 0
          statics := [⟨0x9000, 0x20, 0⟩]
          buffers := [(⟨0x8000, 0x10, .normal⟩, .send), (⟨0x7100000000, 0x1000, .normal⟩, .recv)]
          raw := 16
          rawWithoutPadding := 15
          rawSize := 40 } := by
  have hs : Sendable 24 queryCalls := sendable_queryCalls (by decide)
  obtain ⟨cmd, hbuild, hread⟩ := ipcParse_of_inOrder hs inOrder_queryCalls
  obtain rfl := Option.some.inj (hbuild.symm.trans (build_eq_filled hs.toRoomFor))
  have hraw : ((filled queryCalls).ipcPrepareHeader 24).2 = 16 := by decide
  have hlength : ((filled queryCalls).header 24).length = 15 := by decide
  have hwords : (filled queryCalls).rawWords 24 * 4 = 40 := by decide
  refine ⟨_, hbuild, fun old tls hmessage => ?_⟩
  rw [hread old tls hmessage, hraw, hlength, hwords]
  rfl

/-- Where nothing empty is added, the buffers and the handles are read as they have been added
exactly when they have been added in order. -/
theorem ipcParse_eq_added_iff (h : Sendable sizeofRaw calls)
    (hbuffers : ∀ p ∈ calls.filterMap Call.addedBuffer, p.1 ≠ noBuffer)
    (hhandles : ∀ p ∈ calls.filterMap Call.addedHandle, p.1 ≠ 0) :
    ∃ cmd, build calls = some cmd ∧ ∀ old tls, Message cmd sizeofRaw old tls →
      ((ipcParse tls).buffers = calls.filterMap Call.addedBuffer ∧
        (ipcParse tls).handles = calls.filterMap Call.addedHandle ↔ InOrder calls) := by
  have hbuffersIff := (filled_buffersTable calls).held_eq_iff hbuffers
  have hhandlesIff := (filled_handlesTable calls).held_eq_iff hhandles
  refine ⟨filled calls, build_eq_filled h.toRoomFor, fun old tls hmessage => ?_⟩
  rw [ipcParse_of_written (written_of_message hmessage) (fits_filled h)]
  constructor
  · rintro ⟨hb, hh⟩
    exact ⟨hbuffersIff.mp hb, hhandlesIff.mp hh⟩
  · intro horder
    exact ⟨hbuffersIff.mpr horder.buffers, hhandlesIff.mpr horder.handles⟩

/-- The buffer to receive the play statistics has been added in front of the sent one, and is
lost. -/
theorem not_ipcParse_eq_added_playStatistics : ∃ cmd,
    build [.recvBuffer ⟨0x7100000000, 0x1000, .normal⟩, .sendBuffer ⟨0x8000, 0x10, .normal⟩] =
      some cmd ∧
    ∀ old tls, Message cmd 16 old tls →
      ¬ ((ipcParse tls).buffers = [(⟨0x7100000000, 0x1000, .normal⟩, .recv),
        (⟨0x8000, 0x10, .normal⟩, .send)] ∧ (ipcParse tls).handles = []) := by
  have hsendable : Sendable 16 [.recvBuffer ⟨0x7100000000, 0x1000, .normal⟩,
      .sendBuffer ⟨0x8000, 0x10, .normal⟩] :=
    ⟨⟨by decide, by decide, by decide⟩, by decide, by decide, by decide⟩
  obtain ⟨cmd, hbuild, hread⟩ := ipcParse_eq_added_iff hsendable
    (by simp [Call.addedBuffer, noBuffer]) (by simp [Call.addedHandle])
  refine ⟨cmd, hbuild, fun old tls hmessage hadded => ?_⟩
  have horder := ((hread old tls hmessage).mp hadded).buffers
  exact absurd (List.rel_of_pairwise_cons horder List.mem_cons_self) (by decide)

end Sp2Module.Ipc
