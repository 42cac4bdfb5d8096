import Dsnet.Common.Replica
import Dsnet.Eris.Client
import Dsnet.Eris.Fcor
import Dsnet.Transaction.Calls

/-! `transaction/eris/server.{h,cc}`: the replicas of a shard. The sequencer numbers the messages of each
    shard, so a replica logs them as they come; the leader executes them too. A replica that misses a message
    asks the others for it, and the leader in the end the failure coordinator, which has all shards drop
    it unless one of them has got it. A new view takes over the longest log, and so does a new epoch, whose
    log is put together from the messages that any of the shards has got.

    Here are the state of a replica, what it does to its log, and how it executes. Of the numbers that the
    source narrows, those that the constructor of `MsgStamp` takes as `int`s are narrowed here; view and
    session numbers are taken to fit the 32 bits they have in messages. A failed `ASSERT`, `Panic` and an
    exception all end the process. -/

namespace Dsnet.Eris
open Handler Transaction

/-! ### The log -/

/-- `TxnData`. -/
structure TxnData where
  txnid : Nat := 0
  type : RequestType := .unknown
  deriving DecidableEq, Repr

/-- `ErisLogEntry`. -/
structure ErisLogEntry where
  viewstamp : Viewstamp
  state : LogEntryState
  request : SequencedRequest
  txnData : TxnData := {}
  deriving DecidableEq, Repr

/-- The message that has been logged. -/
def ErisLogEntry.message (e : ErisLogEntry) : RequestMessage :=
  { txnid := e.txnData.txnid, type := e.txnData.type, request := e.request }

/-- The log: its entries, numbered from 1. -/
structure ErisLog where
  entries : List ErisLogEntry
  numbered : ∀ i e, entries[i]? = some e → e.viewstamp.opnum = i + 1

namespace ErisLog

def empty : ErisLog := ⟨[], by simp⟩

/-- `Log::LastOpnum`. -/
def lastOpnum (l : ErisLog) : Nat := Transaction.lastOpnum (fun e => e.viewstamp.opnum) l.entries

theorem lastOpnum_eq (l : ErisLog) : l.lastOpnum = l.entries.length := by
  rw [lastOpnum, Transaction.lastOpnum, List.getLast?_eq_getElem?]
  cases h : l.entries[l.entries.length - 1]? with
  | none =>
    have := List.getElem?_eq_none_iff.mp h
    simp only [Option.map_none, Option.getD_none]
    omega
  | some e =>
    have hnum := l.numbered _ _ h
    have hlt := (List.getElem?_eq_some_iff.mp h).1
    simp only [Option.map_some, Option.getD_some]
    omega

/-- `Log::LastViewstamp`. -/
def lastViewstamp (l : ErisLog) : Viewstamp :=
  (l.entries.getLast?.map (·.viewstamp)).getD { view := 0, opnum := 0 }

/-- `Log::Find`. -/
def find (l : ErisLog) (k : Nat) : Option ErisLogEntry := findEntry l.entries k

/-- `Log::Append`. -/
def append (l : ErisLog) (e : ErisLogEntry) : Option ErisLog :=
  if h : e.viewstamp.opnum = l.lastOpnum + 1 then
    some ⟨l.entries ++ [e], by
      intro i e' hi
      rcases of_getElem?_concat hi with hi | ⟨rfl, rfl⟩
      · exact l.numbered i e' hi
      · rw [h, l.lastOpnum_eq]⟩
  else none

/-- The entry that `Find` returns is changed where it is. -/
def change (l : ErisLog) (k : Nat) (state : LogEntryState) (request : SequencedRequest) (data : TxnData) :
    ErisLog :=
  ⟨if k < 1 then l.entries else
    l.entries.modify (k - 1) ({ · with state := state, request := request, txnData := data }), by
    intro i e hi
    split_ifs at hi with hk
    · exact l.numbered i e hi
    · rw [List.getElem?_modify] at hi
      obtain ⟨e', he', rfl⟩ := Option.map_eq_some_iff.mp hi
      have := l.numbered i e' he'
      split_ifs <;> exact this⟩

/-- `Log::RemoveAfter`: removes the entries from `k` on. For `k = 0` the assertion
    `op - start < entries.size()` compares the wrapped difference. -/
def removeAfter (l : ErisLog) (k : Nat) : Option ErisLog :=
  if k > l.lastOpnum then some l
  else if k = 0 then none
  else some ⟨l.entries.take (k - 1), fun i e hi => l.numbered i e (by
    rw [List.getElem?_take] at hi
    split_ifs at hi
    exact hi)⟩

variable {l l' : ErisLog} {e : ErisLogEntry} {k j : Nat}

theorem find_eq_some : l.find k = some e ↔ 1 ≤ k ∧ l.entries[k - 1]? = some e := by
  rw [find, findEntry]
  split_ifs with h
  · simp only [false_iff]
    omega
  · exact ⟨fun he => ⟨by omega, he⟩, fun he => he.2⟩

theorem append_eq_some (h : l.append e = some l') :
    e.viewstamp.opnum = l.entries.length + 1 ∧ l'.entries = l.entries ++ [e] := by
  rw [append] at h
  split_ifs at h with hop
  cases h
  exact ⟨by rwa [l.lastOpnum_eq] at hop, rfl⟩

theorem removeAfter_eq_some (h : l.removeAfter k = some l') :
    1 ≤ k ∧ l'.entries = l.entries.take (k - 1) := by
  rw [removeAfter, l.lastOpnum_eq] at h
  split_ifs at h with h1 h2
  · cases h
    exact ⟨by omega, (List.take_of_length_le (by omega)).symm⟩
  · cases h
    exact ⟨by omega, rfl⟩

end ErisLog

/-! ### Stamps -/

/-- `MsgStamp`. -/
structure MsgStamp where
  shardNum : Nat
  msgNum : Nat
  sessNum : Nat
  deriving DecidableEq, Repr

namespace MsgStamp

/-- `MsgStamp(shard_num, msg_num, sess_num)`, which takes `int`s: a shard number, which has 32 bits, is the
    same afterwards, but the others have 64. -/
def of (shardNum msgNum sessNum : Nat) : MsgStamp :=
  { shardNum := shardNum, msgNum := toView (toInt msgNum), sessNum := toView (toInt sessNum) }

/-- `MsgStamp(stamp)`. -/
def ofStamp (stamp : Stamp) : MsgStamp :=
  { shardNum := stamp.shardNum, msgNum := stamp.msgNum, sessNum := stamp.sessNum }

/-- The stamp as it is sent to the failure coordinator. -/
def stamp (s : MsgStamp) : Stamp := { shardNum := s.shardNum, msgNum := s.msgNum, sessNum := s.sessNum }

/-- `operator<`: by session, then message number, then shard. -/
instance : LinearOrder MsgStamp :=
  LinearOrder.lift' (fun s => toLex (s.sessNum, toLex (s.msgNum, s.shardNum)))
    (by rintro ⟨s, m, e⟩ ⟨s', m', e'⟩ h; cases h; rfl)

end MsgStamp

/-- The stamps of the operations of a request. -/
def stamps (req : SequencedRequest) : List MsgStamp :=
  req.ops.map fun op => .of op.shard op.msgnum req.sessnum

/-! ### Messages between replicas -/

/-- `GapReplyMessage`. -/
structure GapReplyMessage where
  view : ViewNum
  opNum : Nat
  isfound : Bool
  isgap : Bool
  replicaNum : Nat
  req : Option RequestMessage
  deriving DecidableEq

/-- `DropTxns`. -/
structure DropTxns where
  tempDrops : List Stamp
  permDrops : List Stamp
  unDrops : List RequestMessage
  deriving DecidableEq

/-- `ViewChangeMessage`. -/
structure ViewChangeMessage where
  view : ViewNum
  replicaNum : Nat
  opNum : Nat
  drops : DropTxns
  deriving DecidableEq

/-- `StartViewMessage`. -/
structure StartViewMessage where
  view : ViewNum
  opNum : Nat
  drops : DropTxns
  deriving DecidableEq

/-- `StateTransferRequestMessage`, from `start` on and below `stop` (`begin` and `end`). -/
structure StateTransferRequest where
  view : ViewNum
  start : Nat
  stop : Nat
  deriving DecidableEq

/-- `StateTransferReplyMessage.MsgLogEntry`. -/
structure MsgLogEntry where
  view : Nat
  opNum : Nat
  sessNum : Nat
  msgNum : Nat
  shardNum : Nat
  state : LogEntryState
  request : RequestMessage
  deriving DecidableEq

/-- `StateTransferReplyMessage`. -/
structure StateTransferReply where
  view : ViewNum
  start : Nat
  stop : Nat
  entries : List MsgLogEntry
  deriving DecidableEq

/-- `EpochChangeStateTransferRequest`. -/
structure ECTransferRequest where
  sessNum : Nat
  stateTransferSessNum : Nat
  shardNum : Nat
  start : Nat
  stop : Nat
  deriving DecidableEq

/-- `EpochChangeStateTransferReply.MsgEntry`. -/
structure ECTransferEntry where
  msgNum : Nat
  request : RequestMessage
  deriving DecidableEq

/-- `EpochChangeStateTransferReply`. -/
structure ECTransferReply where
  sessNum : Nat
  stateTransferSessNum : Nat
  shardNum : Nat
  entries : List ECTransferEntry
  deriving DecidableEq

/-- `ToServerMessage`. -/
inductive ToServerMessage where
  | request (msg : RequestMessage)
  | gapRequest (view : ViewNum) (opNum : Nat)
  | gapReply (msg : GapReplyMessage)
  | fc (msg : FCToErisMessage)
  | syncPrepare (view : ViewNum)
  | viewChangeRequest (view : ViewNum)
  | viewChange (msg : ViewChangeMessage)
  | startView (msg : StartViewMessage)
  | stateTransferRequest (msg : StateTransferRequest)
  | stateTransferReply (msg : StateTransferReply)
  | epochChangeStateTransferRequest (msg : ECTransferRequest)
  | epochChangeStateTransferReply (msg : ECTransferReply)
  deriving DecidableEq

/-- What a replica hands to its transport: messages for replicas or a client, and what its client of the
    failure coordinator is to send. -/
inductive Output where
  | toNodes (dsts : List Node) (m : ToServerMessage)
  | toClient (addr : String) (m : Client.ReplyMessage)
  | toFC (m : ErisToFCMessage)

/-! ### The replica -/

/-- `ClientTableEntry`. -/
structure ClientTableEntry where
  lastReqId : Nat := 0
  replied : Bool := false
  reply : Client.ReplyMessage := ⟨0, 0, 0, 0, ⟨0, 0⟩, 0, none, none⟩
  deriving DecidableEq

/-- `PendingRequest`. -/
structure PendingRequest where
  sessnum : Nat
  msgnum : Nat
  requestMessage : RequestMessage
  deriving DecidableEq

/-- `__pendreq_key_compare`. -/
def PendingRequest.less (lhs rhs : PendingRequest) : Bool :=
  lhs.sessnum < rhs.sessnum || lhs.msgnum < rhs.msgnum

/-- What is to be done when a state transfer is completed: match the log with the temporary drops, for a
    leader or for a replica that has been told what is committed, or enter the epoch. -/
inductive TransferCallback where
  | matchLog
  | startView (opnum : Nat)
  | enterEpoch
  deriving DecidableEq

/-- `StateTransfer`. -/
structure StateTransfer where
  start : Nat := 0
  stop : Nat := 0
  replicaIdx : Nat := 0
  callback : TransferCallback := .matchLog

/-- `ECStateTransfer`; for each shard the replica that is asked, and the request. The callback is always
    `CompleteECStateTransfer`. -/
structure ECStateTransfer where
  requests : StdMap Nat (Nat × ECTransferRequest)
  drops : StdSet MsgStamp

/-- The timers. -/
inductive Timer where
  | startGapRequest | gapRequest | fcTxnInfoRequest | sync | leaderSyncHeard | viewChange
  | stateTransfer | fcQueries | epochChangeReq | epochChangeAck | ecStateTransfer | ecStateTransferAck
  deriving DecidableEq

/-- The members of `ErisServer`; `active` tells which timers run. The callback of `pendingFCQueries` is
    always `EnterView`. `entered` is not in the source: how long the log was when the replica entered its
    epoch. -/
structure Server (σ : Type) where
  log : ErisLog
  status : ReplicaStatus
  lastOp : Nat
  view : Nat
  sessnum : Nat
  nextMsgnum : Nat
  lastNormalSessnum : Nat
  lastCommittedOp : Nat
  lastExecutedOp : Nat
  txnLookup : MsgStamp → Option Nat
  shardToMsgnum : StdMap Nat Nat
  clientTable : Nat → Option ClientTableEntry
  pendingRequests : List PendingRequest
  blockedTxns : StdMap Nat Nat
  unblockedExecutionQueue : StdSet Nat
  gapReplyQuorum : QuorumSet Nat Unit
  viewChangeQuorum : QuorumSet Nat ViewChangeMessage
  tempDrops : StdSet MsgStamp
  permDrops : StdSet MsgStamp
  unDrops : StdSet MsgStamp
  unDropMsgs : StdMap MsgStamp RequestMessage
  pendingFCQueries : StdSet MsgStamp
  pendingStateTransfer : StateTransfer
  pendingECStateTransfer : ECStateTransfer
  active : Timer → Bool
  app : AppState σ
  entered : Nat

/-- The arguments of the constructor. -/
structure ServerEnv (σ : Type) where
  config : Configuration
  groupIdx : Nat
  replicaIdx : Nat
  app : TxnServer σ

abbrev ServerHandler (σ : Type) := Handler (Server σ) Output

variable {σ : Type} (E : ServerEnv σ)

/-- `AmLeader`. -/
def amLeader (s : Server σ) : Bool := E.config.getLeaderIndex s.view = E.replicaIdx

/-- `SendMessageToAll`. -/
def ServerEnv.toAll (m : ToServerMessage) : Output := .toNodes (others E.config.n E.groupIdx E.replicaIdx) m

/-- `SendMessageToReplica`. -/
def ServerEnv.toReplica (idx : Nat) (m : ToServerMessage) : Output := .toNodes [.replica E.groupIdx idx] m

/-- The view and session of the replica. -/
def Server.viewNum (s : Server σ) : ViewNum := { viewNum := s.view, sessNum := s.sessnum }

/-- `BuildFCMessage`, and `InvokeAsync` of the message with this case. -/
def invokeFC (msg : ToFCCase) : ServerHandler σ Unit := do
  let s ← get
  emit (.toFC { shardNum := E.groupIdx, replicaNum := E.replicaIdx, localViewNum := s.viewNum, msg := msg })

/-- `timeout->Stop()`. -/
def stop (t : Timer) : ServerHandler σ Unit :=
  modify fun s => { s with active := Function.update s.active t false }

/-- `timeout->Reset()` and `timeout->Start()`. -/
def reset (t : Timer) : ServerHandler σ Unit :=
  modify fun s => { s with active := Function.update s.active t true }

/-- `log.Append`. -/
def append (e : ErisLogEntry) : ServerHandler σ Unit := do
  let s ← get
  let log ← ofOption (s.log.append e)
  modify fun s => { s with log := log }

/-- `txnLookup.insert`, which keeps what is there. -/
def insertLookup (lookup : MsgStamp → Option Nat) (stamp : MsgStamp) (opnum : Nat) : MsgStamp → Option Nat :=
  match lookup stamp with
  | some _ => lookup
  | none => Function.update lookup stamp (some opnum)

/-- `InstallLogEntry`: one operation of a message that has been received. -/
def indexOp (sessnum opnum : Nat) (op : ShardOp) : ServerHandler σ Unit := do
  modify fun s => { s with
    txnLookup := insertLookup s.txnLookup (.of op.shard op.msgnum sessnum) opnum }
  let s ← get
  assert (op.msgnum > (s.shardToMsgnum.find? op.shard).getD 0)
  modify fun s => { s with shardToMsgnum := s.shardToMsgnum.insert op.shard op.msgnum }

/-- `InstallLogEntry`. -/
def installLogEntry (vs : Viewstamp) (state : LogEntryState) (msg : RequestMessage) :
    ServerHandler σ Unit := do
  modify fun s => { s with lastOp := vs.opnum, nextMsgnum := vs.msgnum + 1 }
  append { viewstamp := vs, state := state, request := msg.request
           txnData := { txnid := msg.txnid, type := msg.type } }
  when (state = .received) <|
    forEach msg.request.ops (indexOp msg.request.sessnum vs.opnum)

/-- `RewindLog`. -/
def rewindLog (opnum : Nat) : ServerHandler σ Unit := do
  let s ← get
  assert (opnum ≥ s.lastCommittedOp)
  assert (opnum ≥ s.lastExecutedOp)
  modify fun s => { s with lastOp := opnum }
  let log ← ofOption (s.log.removeAfter opnum)
  modify fun s => { s with log := log, nextMsgnum := log.lastViewstamp.msgnum + 1 }

/-! ### Drops -/

/-- `InstallTempDrop`. -/
def installTempDrop (stamp : MsgStamp) : ServerHandler σ Unit := do
  let s ← get
  assert (stamp.sessNum = s.sessnum)
  when (stamp ∉ s.permDrops.toList ∧ stamp ∉ s.unDrops.toList) <|
    modify fun s => { s with tempDrops := s.tempDrops.insert stamp }

/-- The message number that a request has for this shard, by the last of its operations; 0 if there is none. -/
def ServerEnv.lastMsgnum (req : SequencedRequest) : Nat :=
  ((req.ops.filter fun op => op.shard = E.groupIdx).getLast?.map ShardOp.msgnum).getD 0

/-- `InstallUnDrop`: one operation. -/
def unDropStamp (stamp : MsgStamp) : ServerHandler σ Unit := do
  let s ← get
  assert (stamp ∉ s.permDrops.toList)
  modify fun s => { s with unDrops := s.unDrops.insert stamp, tempDrops := s.tempDrops.erase stamp }

/-- `InstallUnDrop`. -/
def installUnDrop (unDrop : RequestMessage) : ServerHandler σ Unit := do
  let s ← get
  assert (unDrop.request.sessnum = s.sessnum)
  forEach (stamps unDrop.request) unDropStamp
  let msgNum := E.lastMsgnum unDrop.request
  assert (msgNum > 0)
  modify fun s => { s with
    unDropMsgs := s.unDropMsgs.insert (.of E.groupIdx msgNum unDrop.request.sessnum) unDrop }

/-- `InstallPermDrop`: the entry of a message that has been logged becomes a NOOP. -/
def dropEntry (opnum : Nat) : ServerHandler σ Unit := do
  let s ← get
  let entry ← ofOption (s.log.find opnum)
  when (entry.state = .received) do
    assert (opnum > s.lastExecutedOp)
    modify fun s => { s with
      log := s.log.change opnum .noop entry.request entry.txnData
      txnLookup := (stamps entry.request).foldl (fun f stamp => Function.update f stamp none) s.txnLookup }

/-- `InstallPermDrop`. -/
def installPermDrop (stamp : MsgStamp) : ServerHandler σ Unit := do
  let s ← get
  assert (stamp ∉ s.unDrops.toList)
  modify fun s => { s with permDrops := s.permDrops.insert stamp, tempDrops := s.tempDrops.erase stamp }
  when (stamp.shardNum = E.groupIdx) <| whenSome (s.txnLookup stamp) dropEntry

/-- `MergeDropTxns`. -/
def mergeDropTxns (drops : DropTxns) : ServerHandler σ Unit := do
  let s ← get
  forEach drops.tempDrops fun x => installTempDrop (.of x.shardNum x.msgNum s.sessnum)
  forEach drops.permDrops fun x => installPermDrop E (.of x.shardNum x.msgNum s.sessnum)
  forEach drops.unDrops (installUnDrop E)

/-- `BuildDropTxns`, which leaves the sessions out. -/
def buildDropTxns (s : Server σ) : DropTxns where
  tempDrops := s.tempDrops.toList.map fun x => { shardNum := x.shardNum, msgNum := x.msgNum }
  permDrops := s.permDrops.toList.map fun x => { shardNum := x.shardNum, msgNum := x.msgNum }
  unDrops := s.unDropMsgs.toList.map Prod.snd

/-- `CheckTempDrops`. -/
def checkTempDrops : ServerHandler σ Unit := do
  let s ← get
  assert (∀ stamp ∈ s.permDrops.toList, stamp ∉ s.tempDrops.toList)
  assert (∀ stamp ∈ s.unDrops.toList, stamp ∉ s.tempDrops.toList)

end Dsnet.Eris
