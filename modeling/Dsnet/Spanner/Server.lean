import Dsnet.Lib.Cluster
import Dsnet.Common.Quorum
import Dsnet.Transaction.Calls

/-! `transaction/spanner/spanner-proto.proto` and `transaction/spanner/server.{h,cc}`: the replicas of a
    shard. The leader puts each request into its log, and when enough others have it, calls the
    application with it and replies; the others follow.

    The view of a replica never changes. A failed `ASSERT` stops the process. -/

namespace Dsnet.Spanner
open Handler Transaction

/-! ### Messages -/

/-- `ReplyType`. -/
inductive ReplyType where
  | ok | fail | retry | ack
  deriving DecidableEq, Repr

/-- `RequestType`. -/
inductive RequestType where
  | unknown | prepare | commit | abort
  deriving DecidableEq, Repr

/-- `ReplyMessage`, with the values that it has after `Clear()`. -/
structure ReplyMessage where
  clientreqid : Nat := 0
  shardNum : Nat := 0
  type : ReplyType := .ok
  reply : String := ""
  deriving DecidableEq, Repr

/-- `TxnData`, without `decided`, which nothing reads. -/
structure TxnData where
  txnid : Nat := 0
  type : RequestType := .unknown
  deriving DecidableEq, Repr

/-- `ToServerMessage` and `ReplyMessage`. -/
inductive Message where
  | request (txnData : TxnData) (request : Request)
  | prepare (view opnum : Nat) (txnData : TxnData) (request : Request)
  | prepareOK (view opnum replicaNum : Nat)
  | commit (view opnum : Nat)
  | reply (msg : ReplyMessage)
  deriving DecidableEq

/-- What a handler hands to the transport. -/
abbrev Output := Cluster.Send Node Message

/-! ### The replica -/

/-- `SpannerLogEntry`. -/
abbrev SpannerLogEntry := TxnLogEntry TxnData

/-- `ClientTableEntry`. -/
structure ClientTableEntry where
  lastReqId : Nat := 0
  replied : Bool := false
  reply : ReplyMessage := {}
  deriving DecidableEq

/-- The members of `SpannerServer`. `resendPrepareTimeout` tells whether the timer runs. -/
structure Server (σ : Type) where
  view : Nat
  lastOp : Nat
  lastCommitted : Nat
  log : List SpannerLogEntry
  clientAddresses : Nat → Option Node
  clientTable : Nat → Option ClientTableEntry
  prepareOKQuorum : QuorumSet (Nat × Nat) Unit
  resendPrepareTimeout : Bool
  app : AppState σ

/-- The arguments of the constructor. -/
structure ServerEnv (σ : Type) where
  config : Configuration
  groupIdx : Nat
  replicaIdx : Nat
  app : TxnServer σ

abbrev ServerHandler (σ : Type) := Handler (Server σ) Output

variable {σ : Type} (E : ServerEnv σ)

/-- `AmLeader`. -/
def amLeader (s : Server σ) : Bool := E.config.getLeaderIndex s.view = E.replicaIdx

/-- `SendMessageToAll`. -/
def ServerEnv.toAll (m : Message) : Output := ⟨others E.config.n E.groupIdx E.replicaIdx, m⟩

/-- `SendMessageToReplica` for the leader of this view. -/
def ServerEnv.toLeader (view : Nat) (m : Message) : Output :=
  ⟨[.replica E.groupIdx (E.config.getLeaderIndex view)], m⟩

/-- `log.Append`. -/
def append (e : SpannerLogEntry) : ServerHandler σ Unit := do
  let s ← get
  assert (e.opnum = lastOpnum (fun e => e.opnum) s.log + 1)
  modify fun s => { s with log := s.log ++ [e] }

/-- `UpdateClientTable`. -/
def updateClientTable (req : Request) : ServerHandler σ Unit := do
  let s ← get
  let entry := (s.clientTable req.clientid).getD {}
  assert (entry.lastReqId ≤ req.clientreqid)
  let entry := if entry.lastReqId = req.clientreqid then entry else { lastReqId := req.clientreqid }
  modify fun s => { s with clientTable := Function.update s.clientTable req.clientid (some entry) }

/-- `SendPrepare`. -/
def sendPrepare : ServerHandler σ Unit := do
  let s ← get
  let entry ← ofOption (findEntry s.log s.lastOp)
  emit (E.toAll (.prepare entry.view entry.opnum entry.txnData entry.request))
  modify fun s => { s with resendPrepareTimeout := true }

/-- `HandleClientRequest`, for a request that is new to the leader. -/
def logRequest (txnData : TxnData) (req : Request) : ServerHandler σ Unit := do
  updateClientTable req
  modify fun s => { s with lastOp := s.lastOp + 1 }
  let s ← get
  assert (txnData.type ≠ .unknown)
  append { viewstamp := { view := s.view, opnum := s.lastOp }, state := .prepared, request := req
           txnData := txnData }
  sendPrepare E

/-- `HandleClientRequest`. -/
def handleClientRequest (remote : Node) (txnData : TxnData) (req : Request) : ServerHandler σ Unit := do
  modify fun s => { s with
    clientAddresses := Function.update s.clientAddresses req.clientid
      (some ((s.clientAddresses req.clientid).getD remote)) }
  let s ← get
  when (amLeader E s = true) <|
    match s.clientTable req.clientid with
    | some entry =>
      if req.clientreqid < entry.lastReqId then pure ()
      else if req.clientreqid = entry.lastReqId then
        when (entry.replied = true) (emit ⟨[remote], .reply entry.reply⟩)
      else logRequest E txnData req
    | none => logRequest E txnData req

/-- `HandlePrepare`: an entry in place of one that has been missed. -/
def fillLog (view : Nat) : ServerHandler σ Unit := do
  modify fun s => { s with lastOp := s.lastOp + 1 }
  let s ← get
  append { viewstamp := { view := view, opnum := s.lastOp }, state := .executed
           request := { op := "", clientid := 0, clientreqid := 0 }, txnData := {} }

/-- `HandlePrepare`. -/
def handlePrepare (view opnum : Nat) (txnData : TxnData) (req : Request) : ServerHandler σ Unit := do
  let s ← get
  assert (amLeader E s = false)
  if opnum ≤ s.lastOp then
    emit (E.toLeader s.view (.prepareOK view opnum E.replicaIdx))
  else do
    iterate (opnum - (s.lastOp + 1)) (fillLog view)
    modify fun s => { s with lastOp := s.lastOp + 1 }
    let s ← get
    assert (txnData.type ≠ .unknown)
    append { viewstamp := { view := view, opnum := s.lastOp }, state := .prepared, request := req
             txnData := txnData }
    updateClientTable req
    emit (E.toLeader s.view (.prepareOK view opnum E.replicaIdx))

/-- How `ExecuteTxn` calls the application. -/
def TxnData.arg (d : TxnData) : TxnArg :=
  { txnid := d.txnid
    type := match d.type with
      | .prepare => .prepare
      | .commit => .commit
      | _ => .abort }

/-- The type of the reply. -/
def replyType (d : TxnData) (ret : TxnRet) : ReplyType :=
  if d.type = .commit ∨ d.type = .abort then .ack
  else if ret.blocked then .retry
  else if ret.commit then .ok
  else .fail

/-- `Execute`. -/
def execute (opnum : Nat) (txn : String) (arg : TxnArg) : ServerHandler σ (String × TxnRet) := do
  let s ← get
  let (x, app) := s.app.execute E.app opnum txn arg
  modify fun s => { s with app := app }
  ofOption x

/-- `ExecuteTxn`. -/
def executeTxn (entry : SpannerLogEntry) : ServerHandler σ Unit := do
  assert (entry.state = .committed)
  assert (entry.txnData.type ≠ .unknown)
  let (result, ret) ← execute E entry.opnum entry.request.op entry.txnData.arg
  assert (ret.unblockedTxns.size = 0)
  assert (entry.txnData.type = .commit ∨ entry.txnData.type = .abort →
    ret.commit = true ∧ ret.blocked = false)
  let reply : ReplyMessage :=
    { clientreqid := entry.request.clientreqid, shardNum := E.groupIdx
      type := replyType entry.txnData ret, reply := result }
  let cte : ClientTableEntry := { lastReqId := entry.request.clientreqid, replied := true, reply := reply }
  modify fun s => { s with
    clientTable := Function.update s.clientTable entry.request.clientid (some cte) }
  let s ← get
  when (E.config.getLeaderIndex entry.view = E.replicaIdx) <|
    whenSome (s.clientAddresses entry.request.clientid) fun addr => emit ⟨[addr], .reply reply⟩

/-- The loop of `CommitUpTo`. -/
def commitNext : ServerHandler σ Unit := do
  modify fun s => { s with lastCommitted := s.lastCommitted + 1 }
  let s ← get
  let entry ← ofOption (findEntry s.log s.lastCommitted)
  when (entry.state ≠ .executed) do
    let entry := { entry with state := .committed }
    modify fun s => { s with log := setEntry s.log s.lastCommitted entry }
    executeTxn E entry

/-- `CommitUpTo`. -/
def commitUpTo (opnum : Nat) : ServerHandler σ Unit := do
  let s ← get
  when (s.lastCommitted < opnum ∧ amLeader E s = true) (emit (E.toAll (.commit s.view opnum)))
  when (opnum > s.lastCommitted) <| modify fun s => { s with resendPrepareTimeout := false }
  iterate (opnum - s.lastCommitted) (commitNext E)

/-- `HandlePrepareOK`. -/
def handlePrepareOK (view opnum replicaNum : Nat) : ServerHandler σ Unit := do
  let s ← get
  assert (amLeader E s = true)
  modify fun s => { s with prepareOKQuorum := s.prepareOKQuorum.add (view, opnum) replicaNum () }
  let s ← get
  whenSome (s.prepareOKQuorum.checkForQuorum (view, opnum)) fun _ => commitUpTo E opnum

/-- `HandleCommit`. -/
def handleCommit (opnum : Nat) : ServerHandler σ Unit := do
  let s ← get
  assert (amLeader E s = false)
  when (¬ opnum > s.lastOp ∧ ¬ opnum ≤ s.lastCommitted) (commitUpTo E opnum)

/-- `ReceiveMessage`; other messages make it panic. -/
def serverReceive (remote : Node) : Message → ServerHandler σ Unit
  | .request txnData req => handleClientRequest E remote txnData req
  | .prepare view opnum txnData req => handlePrepare E view opnum txnData req
  | .prepareOK view opnum replicaNum => handlePrepareOK E view opnum replicaNum
  | .commit _ opnum => handleCommit E opnum
  | .reply _ => abort

/-- The replica as it is constructed. -/
def Server.initial : Server σ :=
  { view := 0, lastOp := 0, lastCommitted := 0, log := [], clientAddresses := fun _ => none
    clientTable := fun _ => none, prepareOKQuorum := QuorumSet.new (E.config.quorumSize - 1)
    resendPrepareTimeout := false, app := AppState.initial E.app }

end Dsnet.Spanner
