import Dsnet.Common.MessageSet
import Dsnet.Common.Quorum
import Dsnet.Lib.Cluster
import Dsnet.Transaction.Calls

/-! `transaction/granola/granola-proto.proto` and `transaction/granola/server.{h,cc}`: the replicas of a
    shard. The leader puts each request into its log, and when enough others have it, commits it. In locking
    mode it then calls the application with PREPARE and votes; when the votes of all shards are there it
    decides, finishes the transaction and replies. The others do what it tells them.

    The view of a replica never changes. A failed `ASSERT` stops the process. -/

namespace Dsnet.Granola
open Handler Transaction

/-! ### Messages -/

/-- `Status`. -/
inductive Status where
  | commit | abort | conflict
  deriving DecidableEq, Repr

/-- `ReplyMessage`, with the values that it has after `Clear()`. -/
structure ReplyMessage where
  clientreqid : Nat := 0
  shardNum : Nat := 0
  status : Status := .commit
  reply : String := ""
  deriving DecidableEq, Repr

/-- `VoteMessage`. -/
structure VoteMessage where
  clientid : Nat
  clientreqid : Nat
  shardNum : Nat
  nshards : Nat
  status : Status
  deriving DecidableEq, Repr

/-- `ToServerMessage` and `ReplyMessage`. -/
inductive Message where
  | request (txnid : Nat) (indep ro : Bool) (request : SequencedRequest)
  | prepare (view opnum txnid : Nat) (indep ro : Bool) (request : SequencedRequest) (timestamp : Nat)
  | prepareOK (view opnum replicaNum : Nat)
  | commit (view opnum : Nat)
  | vote (msg : VoteMessage)
  | voteRequest (clientid clientreqid : Nat)
  | finalTimestamp (view opnum timestamp : Nat) (status : Status)
  | reply (msg : ReplyMessage)
  deriving DecidableEq

/-- What a handler hands to the transport. -/
abbrev Output := Cluster.Send Node Message

/-! ### The replica -/

/-- `TxnData`. Its copy constructor leaves `status` out, and the log keeps a copy: the status of a new entry
    is whatever was there. -/
structure TxnData where
  txnid : Nat := 0
  indep : Bool := false
  ro : Bool := false
  proposedTs : Nat := 0
  finalTs : Nat := 0
  tsDecided : Bool := false
  status : Status := .commit
  deriving DecidableEq, Repr

/-- `GranolaLogEntry`. -/
structure GranolaLogEntry where
  viewstamp : Viewstamp
  state : LogEntryState
  request : SequencedRequest
  txnData : TxnData
  deriving DecidableEq, Repr

namespace GranolaLogEntry

abbrev view (e : GranolaLogEntry) : Nat := e.viewstamp.view
abbrev opnum (e : GranolaLogEntry) : Nat := e.viewstamp.opnum

/-- The client and its number for the request. -/
abbrev reqId (e : GranolaLogEntry) : Nat × Nat := (e.request.clientid, e.request.clientreqid)

/-- The entry with another status. -/
def withStatus (e : GranolaLogEntry) (status : Status) : GranolaLogEntry :=
  { e with txnData := { e.txnData with status := status } }

end GranolaLogEntry

/-- `ClientTableEntry`. -/
structure ClientTableEntry where
  lastReqId : Nat := 0
  replied : Bool := false
  reply : ReplyMessage := {}
  deriving DecidableEq

/-- The members of `GranolaServer`; `clientReqMap` is that of its log. `resendPrepareTimeout` tells whether
    the timer runs, `voteTimeouts` for which operations one does. `pendingTransactions` is ordered by
    timestamp alone, so it maps timestamps to operations. -/
structure Server (σ : Type) where
  view : Nat
  lastOp : Nat
  lastCommitted : Nat
  localClock : Nat
  log : List GranolaLogEntry
  clientReqMap : Nat × Nat → Option Nat
  clientAddresses : Nat → Option Node
  clientTable : Nat → Option ClientTableEntry
  pendingTransactions : StdMap Nat Nat
  prepareOKQuorum : QuorumSet (Nat × Nat) Unit
  voteQuorum : MessageSet (Nat × Nat) VoteMessage
  resendPrepareTimeout : Bool
  voteTimeouts : Nat → Bool
  app : AppState σ

/-- The arguments of the constructor. -/
structure ServerEnv (σ : Type) where
  config : Configuration
  groupIdx : Nat
  replicaIdx : Nat
  locking : Bool
  app : TxnServer σ

abbrev ServerHandler (σ : Type) := Handler (Server σ) Output

variable {σ : Type} (E : ServerEnv σ)

/-- `AmLeader`. -/
def amLeader (s : Server σ) : Bool := E.config.getLeaderIndex s.view = E.replicaIdx

/-- `SendMessageToAll`. -/
def ServerEnv.toAll (m : Message) : Output := ⟨others E.config.n E.groupIdx E.replicaIdx, m⟩

/-- `SendMessageToReplica` for the leader of this view. -/
def ServerEnv.toLeader (view : Nat) (m : Message) : Output :=
  ⟨[.replica E.groupIdx (E.config.getLeaderIndex view)], m⟩

/-- `SendMessageToGroups`. -/
def ServerEnv.toGroups (shards : List Nat) (m : Message) : Output := ⟨shards.flatMap (group E.config.n), m⟩

/-- The shards of a request other than this one. -/
def ServerEnv.otherShards (req : SequencedRequest) : List Nat :=
  (req.ops.map ShardOp.shard).filter (· ≠ E.groupIdx)

/-- `GranolaLog::Append`. -/
def append (e : GranolaLogEntry) : ServerHandler σ Unit := do
  modify fun s => { s with clientReqMap := Function.update s.clientReqMap e.reqId (some e.opnum) }
  let s ← get
  assert (e.opnum = lastOpnum (fun e => e.opnum) s.log + 1)
  modify fun s => { s with log := s.log ++ [e] }

/-- `GranolaLog::Find`. -/
def Server.findRequest (s : Server σ) (reqId : Nat × Nat) : Option GranolaLogEntry :=
  (s.clientReqMap reqId).bind (findEntry s.log)

/-- The entry is changed in the log. -/
def store (e : GranolaLogEntry) : ServerHandler σ Unit :=
  modify fun s => { s with log := setEntry s.log e.opnum e }

/-- `pendingTransactions.insert`. -/
def insertPending (opnum timestamp : Nat) : ServerHandler σ Unit :=
  when (E.locking = false) <| modify fun s =>
    if (s.pendingTransactions.find? timestamp).isSome then s
    else { s with pendingTransactions := s.pendingTransactions.insert timestamp opnum }

/-- `UpdateClientTable`. -/
def updateClientTable (req : SequencedRequest) : ServerHandler σ Unit := do
  let s ← get
  let entry := (s.clientTable req.clientid).getD {}
  assert (entry.lastReqId ≤ req.clientreqid)
  let entry := if entry.lastReqId = req.clientreqid then entry else { lastReqId := req.clientreqid }
  modify fun s => { s with clientTable := Function.update s.clientTable req.clientid (some entry) }

/-- `SendPrepare`. -/
def sendPrepare : ServerHandler σ Unit := do
  let s ← get
  let entry ← ofOption (findEntry s.log s.lastOp)
  emit (E.toAll (.prepare entry.view entry.opnum entry.txnData.txnid entry.txnData.indep
    entry.txnData.ro entry.request entry.txnData.proposedTs))
  modify fun s => { s with resendPrepareTimeout := true }

/-- The data of a new entry: a transaction on one shard has its final timestamp. -/
def newTxnData (txnid : Nat) (indep ro : Bool) (timestamp : Nat) (req : SequencedRequest) : TxnData :=
  let single := req.ops.length = 1
  { txnid := txnid, indep := indep, ro := ro, proposedTs := timestamp
    finalTs := if single then timestamp else 0, tsDecided := single }

/-- `HandleClientRequest`, for a request that is new to the leader. -/
def logRequest (txnid : Nat) (indep ro : Bool) (req : SequencedRequest) : ServerHandler σ Unit := do
  updateClientTable req
  modify fun s => { s with lastOp := s.lastOp + 1, localClock := s.localClock + 1 }
  let s ← get
  insertPending E s.lastOp s.localClock
  append { viewstamp := { view := s.view, opnum := s.lastOp }, state := .prepared, request := req
           txnData := newTxnData txnid indep ro s.localClock req }
  when (req.ops.length > 1) <| modify fun s => { s with
    voteQuorum := s.voteQuorum.setShardRequired (req.clientid, req.clientreqid) (req.ops.length - 1) }
  sendPrepare E

/-- `HandleClientRequest`. -/
def handleClientRequest (remote : Node) (txnid : Nat) (indep ro : Bool) (req : SequencedRequest) :
    ServerHandler σ Unit := do
  modify fun s => { s with
    clientAddresses := Function.update s.clientAddresses req.clientid
      (some ((s.clientAddresses req.clientid).getD remote)) }
  let s ← get
  when (amLeader E s = true) <|
    match s.clientTable req.clientid with
    | some entry =>
      if req.clientreqid < entry.lastReqId then pure ()
      else if req.clientreqid = entry.lastReqId then
        when (entry.replied = true) (emit ⟨[remote], .reply entry.reply⟩)
      else logRequest E txnid indep ro req
    | none => logRequest E txnid indep ro req

/-- `HandlePrepare` and `HandleFinalTimestamp`: an entry in place of one that has been missed. -/
def fillLog (view : Nat) : ServerHandler σ Unit := do
  modify fun s => { s with lastOp := s.lastOp + 1 }
  let s ← get
  append { viewstamp := { view := view, opnum := s.lastOp }, state := .executed
           request := { op := "", clientid := 0, clientreqid := 0 }, txnData := {} }

/-- `HandlePrepare`. -/
def handlePrepare (view opnum txnid : Nat) (indep ro : Bool) (req : SequencedRequest) (timestamp : Nat) :
    ServerHandler σ Unit := do
  let s ← get
  assert (amLeader E s = false)
  if opnum ≤ s.lastOp then
    emit (E.toLeader s.view (.prepareOK view opnum E.replicaIdx))
  else do
    iterate (opnum - (s.lastOp + 1)) (fillLog view)
    modify fun s => { s with lastOp := s.lastOp + 1 }
    let s ← get
    insertPending E s.lastOp timestamp
    append { viewstamp := { view := view, opnum := s.lastOp }, state := .prepared, request := req
             txnData := newTxnData txnid indep ro timestamp req }
    updateClientTable req
    emit (E.toLeader s.view (.prepareOK view opnum E.replicaIdx))

/-! ### Calls into the application -/

/-- `Execute`. -/
def execute (opnum : Nat) (txn : String) (arg : TxnArg) : ServerHandler σ (String × TxnRet) := do
  let s ← get
  let (x, app) := s.app.execute E.app opnum txn arg
  modify fun s => { s with app := app }
  ofOption x

/-- The status after a PREPARE. -/
def prepareStatus (ret : TxnRet) : Status :=
  if ret.blocked then .conflict else if ret.commit then .commit else .abort

/-- `CommitUpTo`: the entry is prepared in the application. -/
def prepareTxn (entry : GranolaLogEntry) : ServerHandler σ GranolaLogEntry := do
  let (result, ret) ← execute E entry.opnum entry.request.op
    { txnid := entry.txnData.txnid, type := .prepare }
  let entry := entry.withStatus (prepareStatus ret)
  store entry
  let reply : ReplyMessage :=
    { clientreqid := entry.request.clientreqid, shardNum := E.groupIdx, status := entry.txnData.status
      reply := result }
  let s ← get
  let cte := (s.clientTable entry.request.clientid).getD {}
  when (cte.lastReqId ≤ entry.request.clientreqid) <| modify fun s => { s with
    clientTable := Function.update s.clientTable entry.request.clientid
      (some { cte with lastReqId := entry.request.clientreqid, reply := reply }) }
  pure entry

/-- The call by which a transaction is finished, for each status. -/
def finishType : Status → Option TxnType
  | .commit => some .commit
  | .abort => some .abort
  | .conflict => none

/-- `ExecuteTxn`. -/
def executeTxn (entry : GranolaLogEntry) : ServerHandler σ Unit :=
  when (entry.state ≠ .executed) do
    assert (entry.state = .committed)
    whenSome (finishType entry.txnData.status) fun type => do
      let (_, ret) ← execute E entry.opnum entry.request.op { txnid := entry.txnData.txnid, type := type }
      assert (ret.commit = true)
      assert (ret.blocked = false)
    store { entry with state := .executed }
    let s ← get
    let cte := (s.clientTable entry.request.clientid).getD {}
    when (cte.lastReqId ≤ entry.request.clientreqid) do
      let reply := { cte.reply with status := entry.txnData.status }
      modify fun s => { s with
        clientTable := Function.update s.clientTable entry.request.clientid
          (some { lastReqId := entry.request.clientreqid, replied := true, reply := reply }) }
      when (E.config.getLeaderIndex entry.view = E.replicaIdx) <|
        whenSome (s.clientAddresses entry.request.clientid) fun addr => emit ⟨[addr], .reply reply⟩

/-- `ExecuteTxns`: an entry is executed when it is its turn. -/
def executeIndep (entry : GranolaLogEntry) : ServerHandler σ Unit := do
  let (result, _) ← execute E entry.opnum entry.request.op { txnid := entry.txnData.txnid, type := .indep }
  store { entry with state := .executed }
  let reply : ReplyMessage :=
    { clientreqid := entry.request.clientreqid, shardNum := E.groupIdx, status := .commit, reply := result }
  let s ← get
  let cte := (s.clientTable entry.request.clientid).getD {}
  when (cte.lastReqId ≤ entry.request.clientreqid) <| modify fun s => { s with
    clientTable := Function.update s.clientTable entry.request.clientid
      (some { lastReqId := entry.request.clientreqid, replied := true, reply := reply }) }
  when (E.config.getLeaderIndex entry.view = E.replicaIdx) <|
    whenSome (s.clientAddresses entry.request.clientid) fun addr => emit ⟨[addr], .reply reply⟩

/-- The loop of `ExecuteTxns`, which erases a pending transaction in every round. -/
def executePending : Nat → ServerHandler σ Unit
  | 0 => pure ()
  | k + 1 => do
    let s ← get
    whenSome s.pendingTransactions.toList.head? fun p => do
      let entry ← ofOption (findEntry s.log p.2)
      when (entry.txnData.tsDecided = true ∧ entry.state = .committed) do
        executeIndep E entry
        modify fun s => { s with pendingTransactions := s.pendingTransactions.erase p.1 }
        executePending k

/-- `ExecuteTxns`. -/
def executeTxns : ServerHandler σ Unit := do
  let s ← get
  executePending E s.pendingTransactions.size

/-! ### Votes -/

/-- The vote of this shard. -/
def ServerEnv.vote (entry : GranolaLogEntry) : VoteMessage :=
  { clientid := entry.request.clientid, clientreqid := entry.request.clientreqid
    shardNum := E.groupIdx, nshards := entry.request.ops.length, status := entry.txnData.status }

/-- `CommitUpTo`: the leader votes. -/
def sendVote (entry : GranolaLogEntry) : ServerHandler σ Unit := do
  let s ← get
  when (amLeader E s = true ∧ entry.request.ops.length > 1) do
    emit (E.toGroups (E.otherShards entry.request) (.vote (E.vote entry)))
    assert (s.voteTimeouts entry.opnum = false)
    modify fun s => { s with voteTimeouts := Function.update s.voteTimeouts entry.opnum true }

/-- The loop of `CheckVoteQuorum` over the votes of the other shards. -/
def tallyVotes : List (Nat × StdMap Nat VoteMessage) → Status → Option Status
  | [], status => some status
  | kv :: kvs, status =>
    (kv.2.find? 0).bind fun msg =>
      if msg.status = .abort then some .abort
      else tallyVotes kvs (if msg.status = .conflict then .conflict else status)

/-- `CheckVoteQuorum`: the final timestamp, and in locking mode the status, are decided. The final timestamp
    is the proposed one, so the entry keeps its place among the pending transactions. -/
def decideTxn (entry : GranolaLogEntry) (msgs : StdMap Nat (StdMap Nat VoteMessage)) :
    ServerHandler σ GranolaLogEntry := do
  let data := { entry.txnData with finalTs := entry.txnData.proposedTs, tsDecided := true }
  let status ← ofOption <|
    if E.locking = true ∧ data.status ≠ .abort then tallyVotes msgs.toList data.status
    else some data.status
  let entry := { entry with txnData := { data with status := status } }
  store entry
  modify fun s => { s with voteQuorum := s.voteQuorum.remove entry.reqId }
  let s ← get
  emit (E.toAll (.finalTimestamp s.view entry.opnum entry.txnData.finalTs status))
  pure entry

/-- `CheckVoteQuorum`, before the final timestamp is decided. -/
def checkVotes (entry : GranolaLogEntry) : ServerHandler σ GranolaLogEntry := do
  assert (entry.request.ops.length > 1)
  let s ← get
  match s.voteQuorum.checkForQuorum entry.reqId with
  | some msgs =>
    if E.config.getLeaderIndex entry.view = E.replicaIdx ∧ entry.state = .committed then
      decideTxn E entry msgs
    else pure entry
  | none => pure entry

/-- `CheckVoteQuorum`. -/
def checkVoteQuorum (entry : GranolaLogEntry) : ServerHandler σ Unit :=
  when (entry.state ≠ .executed) do
    let entry ← if entry.txnData.tsDecided = true then pure entry else checkVotes E entry
    when (entry.txnData.tsDecided = true) do
      modify fun s => { s with voteTimeouts := Function.update s.voteTimeouts entry.opnum false }
      if E.locking = true then executeTxn E entry else executeTxns E

/-- The loop of `CommitUpTo`. -/
def commitNext : ServerHandler σ Unit := do
  modify fun s => { s with lastCommitted := s.lastCommitted + 1 }
  let s ← get
  let entry ← ofOption (findEntry s.log s.lastCommitted)
  when (entry.state ≠ .executed) do
    let entry := { entry with state := .committed }
    store entry
    let entry ← if E.locking = true then prepareTxn E entry else pure entry
    sendVote E entry
    checkVoteQuorum E entry

/-- `CommitUpTo`. -/
def commitUpTo (opnum : Nat) : ServerHandler σ Unit := do
  let s ← get
  when (s.lastCommitted < opnum ∧ amLeader E s = true) (emit (E.toAll (.commit s.view opnum)))
  when (opnum > s.lastCommitted) <| modify fun s => { s with resendPrepareTimeout := false }
  iterate (opnum - s.lastCommitted) (commitNext E)

/-- `HandlePrepareOK`. -/
def handlePrepareOK (view opnum replicaNum : Nat) : ServerHandler σ Unit := do
  let s ← get
  assert (amLeader E s = true)
  modify fun s => { s with prepareOKQuorum := s.prepareOKQuorum.add (view, opnum) replicaNum () }
  let s ← get
  whenSome (s.prepareOKQuorum.checkForQuorum (view, opnum)) fun _ => commitUpTo E opnum

/-- `HandleCommit`. -/
def handleCommit (opnum : Nat) : ServerHandler σ Unit := do
  let s ← get
  assert (amLeader E s = false)
  when (¬ opnum > s.lastOp ∧ ¬ opnum ≤ s.lastCommitted) (commitUpTo E opnum)

/-- `HandleVote`. -/
def handleVote (msg : VoteMessage) : ServerHandler σ Unit := do
  assert (msg.nshards > 1)
  let s ← get
  when (amLeader E s = true) <|
    match s.findRequest (msg.clientid, msg.clientreqid) with
    | some entry =>
      when (entry.txnData.tsDecided = false) do
        modify fun s => { s with
          voteQuorum := s.voteQuorum.add (msg.clientid, msg.clientreqid) msg.shardNum 0 msg }
        checkVoteQuorum E entry
    | none => modify fun s => { s with
        voteQuorum := (s.voteQuorum.setShardRequired (msg.clientid, msg.clientreqid) (msg.nshards - 1)).add
          (msg.clientid, msg.clientreqid) msg.shardNum 0 msg }

/-- `HandleVoteRequest`. -/
def handleVoteRequest (remote : Node) (clientid clientreqid : Nat) : ServerHandler σ Unit := do
  let s ← get
  when (amLeader E s = true) <|
    whenSome (s.findRequest (clientid, clientreqid)) fun entry =>
      when (entry.state = .committed ∨ entry.state = .executed) <|
        emit ⟨[remote], .vote (E.vote entry)⟩

/-- `HandleFinalTimestamp`. -/
def handleFinalTimestamp (view opnum timestamp : Nat) (status : Status) : ServerHandler σ Unit := do
  let s ← get
  assert (amLeader E s = false)
  when (opnum > s.lastOp) do
    iterate (opnum - s.lastOp) (fillLog view)
    commitUpTo E opnum
    when (E.locking = false) (executeTxns E)
  let s ← get
  let entry ← ofOption (findEntry s.log opnum)
  store { entry with
    txnData := { entry.txnData with finalTs := timestamp, tsDecided := true, status := status } }
  commitUpTo E opnum
  if E.locking = true then do
    let s ← get
    let entry ← ofOption (findEntry s.log opnum)
    executeTxn E entry
  else executeTxns E

/-- `SendVoteRequest`, for the entry of an operation. -/
def sendVoteRequest (opnum : Nat) : ServerHandler σ Unit := do
  let s ← get
  let entry ← ofOption (findEntry s.log opnum)
  whenSome (s.voteQuorum.getMessages entry.reqId) fun votes => do
    let shards := (E.otherShards entry.request).filter fun q => (votes.find? q).isNone
    when (shards ≠ []) <| emit (E.toGroups shards (.voteRequest entry.request.clientid entry.request.clientreqid))

/-- `ReceiveMessage`; other messages make it panic. -/
def serverReceive (remote : Node) : Message → ServerHandler σ Unit
  | .request txnid indep ro req => handleClientRequest E remote txnid indep ro req
  | .prepare view opnum txnid indep ro req timestamp =>
    handlePrepare E view opnum txnid indep ro req timestamp
  | .prepareOK view opnum replicaNum => handlePrepareOK E view opnum replicaNum
  | .commit _ opnum => handleCommit E opnum
  | .vote msg => handleVote E msg
  | .voteRequest clientid clientreqid => handleVoteRequest E remote clientid clientreqid
  | .finalTimestamp view opnum timestamp status => handleFinalTimestamp E view opnum timestamp status
  | .reply _ => abort

/-- The replica as it is constructed. -/
def Server.initial : Server σ :=
  { view := 0, lastOp := 0, lastCommitted := 0, localClock := 0, log := [], clientReqMap := fun _ => none
    clientAddresses := fun _ => none, clientTable := fun _ => none, pendingTransactions := StdMap.empty
    prepareOKQuorum := QuorumSet.new (E.config.quorumSize - 1), voteQuorum := MessageSet.new 1
    resendPrepareTimeout := false, voteTimeouts := fun _ => false, app := AppState.initial E.app }

end Dsnet.Granola
