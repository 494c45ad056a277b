import Sp2Module.IpcCalls

/-!
# Messages to the objects of a domain

A session that has been made a domain stands for several objects. In front of the raw data of a
message is a header that names the object the message is for, and behind them are the identifiers of
the objects that are sent with it.
-/

namespace Sp2Module.Ipc

open WriteList BitFields
open IpcCommand (Call build)

inductive DomainMessageType where
  | sendMessage
  | close
deriving DecidableEq, Repr

def DomainMessageType.value : DomainMessageType → BitVec 8
  | .sendMessage => 1
  | .close => 2

def DomainMessageType.ofValue (value : BitVec 8) : Option DomainMessageType :=
  if value = 1 then some .sendMessage else if value = 2 then some .close else none

inductive LibnxError where
  | domainMessageUnknownType
  | domainMessageTooManyObjectIds
deriving DecidableEq, Repr

/-- `DomainMessageHeader`, with the length in the upper half of the first word. -/
def domainMessageHeader (type : DomainMessageType) (numObjectIds length : ℕ) (thisObjectId : Word) :
    List (Word → Word) :=
  [put (BitVec.ofNat 16 length ++ (BitVec.ofNat 8 numObjectIds ++ type.value)), put thisObjectId,
    put 0, put 0]

/-- A command with its object identifiers up to their count. -/
structure DomainCommand extends IpcCommand where
  objectIds : List Word

def ipcSendObjectId (cmd : DomainCommand) (objectId : Word) : Option DomainCommand :=
  if cmd.objectIds.length < ipcMaxObjects then some { cmd with
    objectIds := cmd.objectIds ++ [objectId] } else none

/-- The size of the raw data with the header and the object identifiers. -/
def DomainCommand.sizeofMessage (cmd : DomainCommand) (sizeofRaw : ℕ) : ℕ :=
  sizeofRaw + 16 + cmd.objectIds.length * 4

/-- The memory and the index of the raw data, whose size is a number of words. -/
def ipcPrepareHeaderForDomain (cmd : DomainCommand) (sizeofRaw : ℕ) (objectId : Word)
    (old : ℕ → Word) : (ℕ → Word) × ℕ :=
  let prepared := cmd.ipcPrepareHeader (cmd.sizeofMessage sizeofRaw)
  let hdr := domainMessageHeader .sendMessage cmd.objectIds.length sizeofRaw objectId
  let tls := performAt prepared.2 hdr (perform prepared.1 old)
  (performAt (prepared.2 + 4 + sizeofRaw / 4) (cmd.objectIds.map put) tls, prepared.2 + 4)

structure IpcParsedDomainRequest extends IpcParsedCommand where
  inMessageType : DomainMessageType
  inThisObjectId : Word
  inObjectIds : List Word
deriving DecidableEq, Repr

/-- The storage ends after 0x100 bytes. The object identifiers are copied from their address in
bytes, which is taken down to a word here where the length in the header is no multiple of 4. -/
def ipcParseDomainRequest (tls : ℕ → Word) : Except LibnxError IpcParsedDomainRequest :=
  let r := ipcParse tls
  let hdr := tls r.raw
  let objectIds := 4 * r.raw + 16 + (hdr.extractLsb' 16 16).toNat
  match DomainMessageType.ofValue (hdr.extractLsb' 0 8) with
  | none => .error .domainMessageUnknownType
  | some inMessageType =>
    let inNumObjectIds := min (hdr.extractLsb' 8 8).toNat 8
    if 0x100 ≤ objectIds + 4 * inNumObjectIds then .error .domainMessageTooManyObjectIds
    else .ok { r with
      raw := r.raw + 4
      inMessageType := inMessageType
      inThisObjectId := tls (r.raw + 1)
      inObjectIds := (List.range inNumObjectIds).map fun i => tls (objectIds / 4 + i) }

/-- The words around the raw data are those that have been prepared. -/
def DomainMessage (cmd : DomainCommand) (sizeofRaw : ℕ) (objectId : Word) (old tls : ℕ → Word) :
    Prop :=
  let prepared := ipcPrepareHeaderForDomain cmd sizeofRaw objectId old
  ∀ i, i < prepared.2 ∨ prepared.2 + sizeofRaw / 4 ≤ i ∧
    i < prepared.2 + sizeofRaw / 4 + cmd.objectIds.length → tls i = prepared.1 i

variable {cmd : DomainCommand} {sizeofRaw : ℕ} {objectId : Word} {old tls : ℕ → Word}
  {calls : List Call} {objectIds : List Word}

theorem foldlM_ipcSendObjectId (cmd : IpcCommand) (h : objectIds.length ≤ ipcMaxObjects) :
    objectIds.foldlM ipcSendObjectId ⟨cmd, []⟩ = some ⟨cmd, objectIds⟩ := by
  induction objectIds using List.reverseRecOn with
  | nil => rfl
  | append_singleton objectIds objectId ih =>
    rw [List.length_append, List.length_singleton] at h
    have hlt : objectIds.length < ipcMaxObjects := h
    rw [List.foldlM_append, ih hlt.le]
    change (ipcSendObjectId ⟨cmd, objectIds⟩ objectId).bind some = _
    rw [ipcSendObjectId, if_pos hlt, Option.bind_some]

theorem message_of_domainMessage (h : DomainMessage cmd sizeofRaw objectId old tls) :
    Message cmd.toIpcCommand (cmd.sizeofMessage sizeofRaw) old tls := by
  intro i hi
  have hafter := h i (.inl (hi.trans_le (Nat.le_add_right _ 4)))
  exact hafter.trans ((performAt_of_lt (by omega)).trans (performAt_of_lt hi))

/-- The header in front of the raw data. -/
theorem header_of_domainMessage (h : DomainMessage cmd sizeofRaw objectId old tls) :
    tls (cmd.ipcPrepareHeader (cmd.sizeofMessage sizeofRaw)).2 = BitVec.ofNat 16 sizeofRaw ++
        (BitVec.ofNat 8 cmd.objectIds.length ++ DomainMessageType.sendMessage.value) ∧
      tls ((cmd.ipcPrepareHeader (cmd.sizeofMessage sizeofRaw)).2 + 1) = objectId := by
  have hwritten := written_performAt (cmd.ipcPrepareHeader (cmd.sizeofMessage sizeofRaw)).2
    (domainMessageHeader .sendMessage cmd.objectIds.length sizeofRaw objectId)
    (perform (cmd.ipcPrepareHeader (cmd.sizeofMessage sizeofRaw)).1 old)
  have htls := hwritten.congr fun i _ hi => by
    have hlt : i < (cmd.ipcPrepareHeader (cmd.sizeofMessage sizeofRaw)).2 + 4 := hi
    exact (h i (.inl hlt)).trans (performAt_of_lt (by omega))
  rw [domainMessageHeader, written_cons, written_cons] at htls
  exact ⟨htls.1, htls.2.1⟩

/-- The object identifiers behind the raw data. -/
theorem objectIds_of_domainMessage (h : DomainMessage cmd sizeofRaw objectId old tls) :
    (List.range cmd.objectIds.length).map (fun i =>
      tls ((cmd.ipcPrepareHeader (cmd.sizeofMessage sizeofRaw)).2 + 4 + sizeofRaw / 4 + i)) =
        cmd.objectIds := by
  have hwritten := written_performAt
    ((cmd.ipcPrepareHeader (cmd.sizeofMessage sizeofRaw)).2 + 4 + sizeofRaw / 4)
    (cmd.objectIds.map put)
    (performAt (cmd.ipcPrepareHeader (cmd.sizeofMessage sizeofRaw)).2
      (domainMessageHeader .sendMessage cmd.objectIds.length sizeofRaw objectId)
      (perform (cmd.ipcPrepareHeader (cmd.sizeofMessage sizeofRaw)).1 old))
  refine Written.map_put (hwritten.congr fun i hlo hhi => ?_)
  rw [List.length_map] at hhi
  exact h i (.inr ⟨hlo, hhi⟩)

theorem domainHeader_parts (length : BitVec 16) (num type : BitVec 8) :
    (length ++ (num ++ type)).extractLsb' 16 16 = length ∧
      (length ++ (num ++ type)).extractLsb' 8 8 = num ∧
      (length ++ (num ++ type)).extractLsb' 0 8 = type := by
  refine ⟨BitVec.extractLsb'_append_eq_left, ?_, ?_⟩
  · rw [BitVec.extractLsb'_append_eq_of_add_le (by decide)]
    exact BitVec.extractLsb'_append_eq_left
  · rw [BitVec.extractLsb'_append_eq_of_add_le (by decide)]
    exact BitVec.extractLsb'_append_eq_right

theorem DomainMessageType.ofValue_value (type : DomainMessageType) :
    DomainMessageType.ofValue type.value = some type := by
  cases type <;> rfl

/-- What is read behind a header. -/
theorem ipcParseDomainRequest_of_header {r : IpcParsedCommand} {type : DomainMessageType}
    {length num : ℕ} (hparse : ipcParse tls = r)
    (hheader : tls r.raw = BitVec.ofNat 16 length ++ (BitVec.ofNat 8 num ++ type.value))
    (hlength : length < 2 ^ 16) (hnum : num ≤ 8) :
    ipcParseDomainRequest tls =
      if 0x100 ≤ 4 * r.raw + 16 + length + 4 * num then .error .domainMessageTooManyObjectIds
      else .ok { r with
        raw := r.raw + 4
        inMessageType := type
        inThisObjectId := tls (r.raw + 1)
        inObjectIds := (List.range num).map fun i => tls ((4 * r.raw + 16 + length) / 4 + i) } := by
  obtain ⟨hlengthPart, hnumPart, htypePart⟩ := domainHeader_parts (BitVec.ofNat 16 length)
    (BitVec.ofNat 8 num) type.value
  rw [← hheader] at hlengthPart hnumPart htypePart
  have hlengthValue : (BitVec.ofNat 16 length).toNat = length := toNat_ofNat_of_lt hlength
  have hnumValue : (BitVec.ofNat 8 num).toNat = num := toNat_ofNat_of_lt (by omega)
  have hmin : min num 8 = num := Nat.min_eq_left hnum
  simp only [ipcParseDomainRequest, hparse, hlengthPart, hnumPart, htypePart, hlengthValue,
    hnumValue, hmin, DomainMessageType.ofValue_value]

theorem ipcPrepareHeaderForDomain_raw (cmd : DomainCommand) (sizeofRaw : ℕ) (objectId : Word)
    (old : ℕ → Word) : (ipcPrepareHeaderForDomain cmd sizeofRaw objectId old).2 =
      (cmd.ipcPrepareHeader (cmd.sizeofMessage sizeofRaw)).2 + 4 := rfl

/-- A message with raw data of `n` words to an object of a domain is read as what has been added to
it, with the object and the object identifiers, where it ends in front of the end of the storage;
otherwise it is refused. -/
theorem ipcParseDomainRequest_of_inOrder {n : ℕ}
    (h : Sendable (4 * n + 16 + objectIds.length * 4) calls) (horder : InOrder calls)
    (hobjectIds : objectIds.length ≤ ipcMaxObjects) :
    ∃ cmd, build calls = some cmd ∧
      objectIds.foldlM ipcSendObjectId ⟨cmd, []⟩ = some ⟨cmd, objectIds⟩ ∧
      ∀ objectId old tls, DomainMessage ⟨cmd, objectIds⟩ (4 * n) objectId old tls →
        ipcParseDomainRequest tls =
          let sizeofMessage := 4 * n + 16 + objectIds.length * 4
          let raw := (ipcPrepareHeaderForDomain ⟨cmd, objectIds⟩ (4 * n) objectId old).2
          if 0x100 ≤ 4 * (raw + n + objectIds.length) then .error .domainMessageTooManyObjectIds
          else .ok { expected calls old raw (cmd.header sizeofMessage).length
              (cmd.rawWords sizeofMessage * 4) with
            inMessageType := .sendMessage
            inThisObjectId := objectId
            inObjectIds := objectIds } := by
  refine ⟨filled calls, build_eq_filled h.toRoomFor,
    foldlM_ipcSendObjectId (filled calls) hobjectIds, fun objectId old tls hmessage => ?_⟩
  have hwritten := written_of_message (message_of_domainMessage hmessage)
  obtain ⟨hheader, hobject⟩ := header_of_domainMessage hmessage
  have hids := objectIds_of_domainMessage hmessage
  have hraw := ipcPrepareHeaderForDomain_raw ⟨filled calls, objectIds⟩ (4 * n) objectId old
  have hsizeof : (DomainCommand.mk (filled calls) objectIds).sizeofMessage (4 * n) =
      4 * n + 16 + objectIds.length * 4 := rfl
  rw [hsizeof] at hwritten hheader hobject hids hraw
  have hparse := ipcParse_filled h horder hwritten
  have hlength : 4 * n < 2 ^ 16 := by
    have hrawWords := h.rawWords
    omega
  have hread := ipcParseDomainRequest_of_header hparse hheader hlength hobjectIds
  rw [hread, hraw]
  simp only [expected] at hobject hids ⊢
  generalize ((filled calls).ipcPrepareHeader (4 * n + 16 + objectIds.length * 4)).2 = raw at *
  have hend : 4 * raw + 16 + 4 * n + 4 * objectIds.length =
      4 * (raw + 4 + n + objectIds.length) := by
    omega
  have hplace : (4 * raw + 16 + 4 * n) / 4 = raw + 4 + 4 * n / 4 := by
    omega
  simp only [hend, hplace, hobject, hids]

/-- With six words of raw data the query is read, with sixty its storage is too short. -/
theorem ipcParseDomainRequest_of_inOrder_query : ∃ cmd, build queryCalls = some cmd ∧
    [7].foldlM ipcSendObjectId ⟨cmd, []⟩ = some ⟨cmd, [7]⟩ ∧
    (∀ objectId old tls, DomainMessage ⟨cmd, [7]⟩ (4 * 6) objectId old tls →
      ipcParseDomainRequest tls =
        .ok { expected queryCalls old 20 15 60 with
          inMessageType := .sendMessage
          inThisObjectId := objectId
          inObjectIds := [7] }) ∧
    ∀ objectId old tls, DomainMessage ⟨cmd, [7]⟩ (4 * 60) objectId old tls →
      ipcParseDomainRequest tls = .error .domainMessageTooManyObjectIds := by
  have hs : Sendable (4 * 6 + 16 + [(7 : Word)].length * 4) queryCalls :=
    sendable_queryCalls (by decide)
  have hs' : Sendable (4 * 60 + 16 + [(7 : Word)].length * 4) queryCalls :=
    sendable_queryCalls (by decide)
  obtain ⟨cmd, hbuild, hids, hread⟩ :=
    ipcParseDomainRequest_of_inOrder hs inOrder_queryCalls (by decide)
  obtain ⟨cmd', hbuild', -, hread'⟩ :=
    ipcParseDomainRequest_of_inOrder hs' inOrder_queryCalls (by decide)
  obtain rfl := Option.some.inj (hbuild.symm.trans hbuild')
  obtain rfl := Option.some.inj (hbuild.symm.trans (build_eq_filled hs.toRoomFor))
  refine ⟨_, hbuild, hids, fun objectId old tls hmessage => ?_, fun objectId old tls hmessage => ?_⟩
  · have hraw : ((filled queryCalls).ipcPrepareHeader 44).2 = 16 := by decide
    have hlength : ((filled queryCalls).header
        (4 * 6 + 16 + [(7 : Word)].length * 4)).length = 15 := by decide
    have hwords : (filled queryCalls).rawWords (4 * 6 + 16 + [(7 : Word)].length * 4) * 4 = 60 := by
      decide
    have hplace : (ipcPrepareHeaderForDomain ⟨filled queryCalls, [7]⟩ (4 * 6) objectId old).2 =
        20 := (ipcPrepareHeaderForDomain_raw _ _ _ _).trans (congrArg (· + 4) hraw)
    rw [hread objectId old tls hmessage]
    dsimp only
    rw [hplace, if_neg (by decide), hlength, hwords]
  · have hraw : ((filled queryCalls).ipcPrepareHeader 260).2 = 16 := by decide
    have hplace : (ipcPrepareHeaderForDomain ⟨filled queryCalls, [7]⟩ (4 * 60) objectId old).2 =
        20 := (ipcPrepareHeaderForDomain_raw _ _ _ _).trans (congrArg (· + 4) hraw)
    rw [hread' objectId old tls hmessage]
    dsimp only
    rw [hplace, if_pos (by decide)]

end Sp2Module.Ipc
