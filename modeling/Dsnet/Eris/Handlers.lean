import Dsnet.Eris.Server

/-! `transaction/eris/server.{h,cc}`: what a replica does with the messages that it receives and when its
    timers fire, and how it goes through views and epochs. -/

namespace Dsnet.Eris
open Handler Transaction

variable {σ : Type} (E : ServerEnv σ)

/-! ### Execution -/

/-- `UpdateClientTable`. -/
def updateClientTable (req : SequencedRequest) : ServerHandler σ Unit := do
  let s ← get
  let entry := (s.clientTable req.clientid).getD {}
  assert (entry.lastReqId ≤ req.clientreqid)
  let entry := if entry.lastReqId = req.clientreqid then entry else { lastReqId := req.clientreqid }
  modify fun s => { s with clientTable := Function.update s.clientTable req.clientid (some entry) }

/-- What the application is called with; a request of unknown type makes the replica panic. -/
def txnType : RequestType → Option TxnType
  | .independent => some .indep
  | .prepare => some .prepare
  | .commit => some .commit
  | .abort => some .abort
  | .unknown => none

/-- `Execute`. A request has an operation for each shard that it is sent to. -/
def execute (opnum : Nat) (req : SequencedRequest) (arg : TxnArg) : ServerHandler σ (String × TxnRet) := do
  let op ← ofOption (req.ops.find? fun op => op.shard = E.groupIdx)
  let s ← get
  let (x, app) := s.app.execute E.app opnum op.op arg
  modify fun s => { s with app := app }
  ofOption x

/-- `ExecuteTxn`: a transaction that was blocked can be executed again. -/
def unblockTxn (txn : Nat) : ServerHandler σ Unit := do
  let s ← get
  let opnum ← ofOption (s.blockedTxns.find? txn)
  assert (opnum ∉ s.unblockedExecutionQueue.toList)
  modify fun s => { s with
    unblockedExecutionQueue := s.unblockedExecutionQueue.insert opnum
    blockedTxns := s.blockedTxns.erase txn }

/-- `ExecuteTxn`: the leader of the view of the operation replies. -/
def replyToClient (entry : ErisLogEntry) (result : String) (commit : Bool) : ServerHandler σ Unit :=
  when (E.config.getLeaderIndex entry.viewstamp.view = E.replicaIdx) do
    let reply : Client.ReplyMessage :=
      { clientid := entry.request.clientid, clientreqid := entry.request.clientreqid
        shardNum := E.groupIdx, replicaNum := E.replicaIdx
        view := { viewNum := entry.viewstamp.view, sessNum := entry.viewstamp.sessnum }
        opNum := entry.viewstamp.opnum, commit := some (if commit then 1 else 0), reply := some result }
    let s ← get
    let cte := (s.clientTable entry.request.clientid).getD {}
    assert (cte.lastReqId = entry.request.clientreqid)
    modify fun s => { s with
      clientTable := Function.update s.clientTable entry.request.clientid
        (some { cte with replied := true, reply := reply }) }
    emit (.toClient entry.request.clientaddr reply)

/-- `ExecuteTxn`. -/
def executeTxn (opnum : Nat) : ServerHandler σ Unit := do
  let s ← get
  let entry ← ofOption (s.log.find opnum)
  assert (entry.state = .received)
  let type ← ofOption (txnType entry.txnData.type)
  let (result, ret) ← execute E opnum entry.request { txnid := entry.txnData.txnid, type := type }
  if ret.blocked = true then do
    let s ← get
    assert (s.blockedTxns.find? entry.txnData.txnid = none)
    modify fun s => { s with blockedTxns := s.blockedTxns.insert entry.txnData.txnid opnum }
  else do
    forEach ret.unblockedTxns.toList unblockTxn
    replyToClient E entry result ret.commit

/-- The loop of `ExecuteUnblockedTxns`. -/
def executeUnblocked : Nat → ServerHandler σ Unit
  | 0 => pure ()
  | k + 1 => do
    let s ← get
    whenSome s.unblockedExecutionQueue.toList.head? fun opnum => do
      executeTxn E opnum
      modify fun s => { s with unblockedExecutionQueue := s.unblockedExecutionQueue.erase opnum }
      executeUnblocked k

/-- `ExecuteUnblockedTxns`. A round takes an operation off the queue, and puts others there only when it is
    not blocked, in which case it is not among those that are blocked or in the queue any more; so there are
    no more rounds than this. -/
def executeUnblockedTxns : ServerHandler σ Unit := do
  let s ← get
  let n := s.unblockedExecutionQueue.size + s.blockedTxns.size + 1
  executeUnblocked E (n * n)

/-- `ExecuteUptoOp`: a request that the client table does not know. -/
def executeRequest (op : Nat) (entry : ErisLogEntry) : ServerHandler σ Unit := do
  updateClientTable entry.request
  executeTxn E op
  executeUnblockedTxns E

/-- The loop of `ExecuteUptoOp`. -/
def executeNext : ServerHandler σ Unit := do
  modify fun s => { s with lastExecutedOp := s.lastExecutedOp + 1 }
  let s ← get
  let entry ← ofOption (s.log.find s.lastExecutedOp)
  when (entry.state = .received) <|
    match s.clientTable entry.request.clientid with
    | some cte =>
      if entry.request.clientreqid < cte.lastReqId then pure ()
      else if entry.request.clientreqid = cte.lastReqId then
        when (cte.replied = true) do
          let reply := { cte.reply with view := s.viewNum, opNum := s.lastExecutedOp }
          modify fun s => { s with
            clientTable := Function.update s.clientTable entry.request.clientid
              (some { cte with reply := reply }) }
          emit (.toClient entry.request.clientaddr reply)
      else executeRequest E s.lastExecutedOp entry
    | none => executeRequest E s.lastExecutedOp entry

/-- `ExecuteUptoOp`. -/
def executeUptoOp (opnum : Nat) : ServerHandler σ Unit := do
  let s ← get
  when (opnum > s.lastExecutedOp) do
    assert (opnum ≤ s.lastOp)
    iterate (opnum - s.lastExecutedOp) (executeNext E)

/-! ### Requests -/

/-- `QueryFCForLastTxn`. -/
def queryFCForLastTxn : ServerHandler σ Unit := do
  stop .startGapRequest
  stop .gapRequest
  let s ← get
  invokeFC E (.txnInfoReq { shardNum := E.groupIdx, msgNum := s.nextMsgnum, sessNum := s.sessnum })
  reset .fcTxnInfoRequest

/-- `ProcessNextOperation`: a message that the replica has not promised to drop is logged, and the leader
    executes it. -/
def logOperation (msg : RequestMessage) (vs : Viewstamp) (state : LogEntryState) (stamp : MsgStamp) :
    ServerHandler σ Unit := do
  let s ← get
  let state := if stamp ∈ s.permDrops.toList then .noop else state
  assert (stamp ∈ s.unDrops.toList → state = .received)
  stop .fcTxnInfoRequest
  installLogEntry vs state msg
  if state = .noop then
    modify fun s => { s with permDrops := s.permDrops.insert stamp }
  else when (state = .received) <|
    if E.config.getLeaderIndex vs.view = E.replicaIdx then executeUptoOp E vs.opnum
    else emit (.toClient msg.request.clientaddr
      { clientid := msg.request.clientid, clientreqid := msg.request.clientreqid
        shardNum := E.groupIdx, replicaNum := E.replicaIdx
        view := { viewNum := vs.view, sessNum := vs.sessnum }, opNum := vs.opnum })

/-- `ProcessNextOperation`, where `k` bounds the number of calls of it within each other. -/
def processOperation : Nat → RequestMessage → Viewstamp → LogEntryState → ServerHandler σ Unit
  | 0, _, _, _ => pure ()
  | k + 1, msg, vs, state => do
    let s ← get
    assert (vs.opnum = s.lastOp + 1)
    assert (vs.msgnum = s.nextMsgnum)
    assert (vs.shardnum = E.groupIdx)
    stop .startGapRequest
    when (s.active .gapRequest = true) do
      stop .gapRequest
      modify fun s => { s with gapReplyQuorum := s.gapReplyQuorum.clear }
    let stamp := MsgStamp.of vs.shardnum vs.msgnum vs.sessnum
    if stamp ∈ s.tempDrops.toList then
      when (s.active .fcTxnInfoRequest = false) (queryFCForLastTxn E)
    else do
      logOperation E msg vs state stamp
      let s ← get
      -- the stamp of the next message: its number is put into the stamp as it is
      let stamp := { stamp with msgNum := s.nextMsgnum }
      let vs : Viewstamp :=
        { view := s.view, opnum := s.lastOp + 1, sessnum := s.sessnum, msgnum := s.nextMsgnum
          shardnum := E.groupIdx }
      if stamp ∈ s.permDrops.toList then processOperation k .blank vs .noop
      else when (stamp ∈ s.unDrops.toList) do
        let msg ← ofOption (s.unDropMsgs.find? stamp)
        processOperation k msg vs .received

/-- `ProcessNextOperation`. Each call within it is for a message that the failure coordinator has decided
    about before. -/
def processNextOperation (msg : RequestMessage) (vs : Viewstamp) (state : LogEntryState) :
    ServerHandler σ Unit := do
  let s ← get
  processOperation E (s.permDrops.size + s.unDrops.size + 1) msg vs state

/-- The viewstamp of the next operation. -/
def Server.nextVs (s : Server σ) : Viewstamp :=
  { view := s.view, opnum := s.lastOp + 1, sessnum := s.sessnum, msgnum := s.nextMsgnum
    shardnum := E.groupIdx }

/-! ### Changes of views and epochs -/

/-- `ClearTimeoutAndQuorums`. -/
def clearTimeoutAndQuorums : ServerHandler σ Unit :=
  modify fun s => { s with
    active := fun _ => false
    gapReplyQuorum := s.gapReplyQuorum.clear
    viewChangeQuorum := s.viewChangeQuorum.clear
    pendingFCQueries := StdSet.empty
    pendingECStateTransfer := { requests := StdMap.empty, drops := StdSet.empty } }

/-- `InitShardMsgNum`. -/
def initShardMsgNum (g : Nat) (m : StdMap Nat Nat) : StdMap Nat Nat :=
  (List.range g).foldl (fun m shard => m.insert shard 0) m

/-- `ClearEpochData`. -/
def clearEpochData : ServerHandler σ Unit :=
  modify fun s => { s with
    tempDrops := StdSet.empty, permDrops := StdSet.empty, unDrops := StdSet.empty
    unDropMsgs := StdMap.empty, txnLookup := fun _ => none
    shardToMsgnum := initShardMsgNum E.config.g s.shardToMsgnum }

/-- `SendViewChange`. -/
def sendViewChange : ServerHandler σ Unit := do
  let s ← get
  emit (E.toAll (.viewChangeRequest s.viewNum))
  when (amLeader E s = false) <|
    emit (E.toReplica (E.config.getLeaderIndex s.view) (.viewChange
      { view := s.viewNum, replicaNum := E.replicaIdx, opNum := s.lastOp, drops := buildDropTxns s }))
  reset .viewChange

/-- `StartViewChange`. -/
def startViewChange (newView : Nat) : ServerHandler σ Unit := do
  let s ← get
  assert (newView > s.view)
  clearTimeoutAndQuorums
  modify fun s => { s with view := newView, status := .viewChange }
  sendViewChange E

/-- The `StartViewMessage` of the replica. -/
def startViewMessage (s : Server σ) : ToServerMessage :=
  .startView { view := s.viewNum, opNum := s.lastOp, drops := buildDropTxns s }

/-- `EnterView`, which is always called with the view of the replica. -/
def enterView : ServerHandler σ Unit := do
  modify fun s => { s with status := .normal }
  clearTimeoutAndQuorums
  let s ← get
  if amLeader E s = true then do
    executeUptoOp E s.lastOp
    modify fun s => { s with lastCommittedOp := s.lastOp }
    let s ← get
    emit (E.toAll (startViewMessage s))
    reset .sync
  else reset .leaderSyncHeard

/-- `SendEpochChangeReq`. -/
def sendEpochChangeReq : ServerHandler σ Unit := do
  let s ← get
  invokeFC E (.epochChangeReq s.sessnum)
  reset .epochChangeReq

/-- `StartEpochChange`. -/
def startEpochChange (newSessnum : Nat) : ServerHandler σ Unit := do
  let s ← get
  assert (newSessnum > s.sessnum)
  clearTimeoutAndQuorums
  modify fun s => { s with sessnum := newSessnum, status := .epochChange }

/-- `DetectedEpochChange`. -/
def detectedEpochChange (newSessnum : Nat) : ServerHandler σ Unit := do
  startEpochChange newSessnum
  sendEpochChangeReq E

/-- `EnterEpoch`, which is always called with the session of the replica. -/
def enterEpoch : ServerHandler σ Unit := do
  modify fun s => { s with
    status := .normal, lastNormalSessnum := s.sessnum, nextMsgnum := 1, lastCommittedOp := s.lastOp
    entered := s.log.lastOpnum }
  clearTimeoutAndQuorums
  clearEpochData E
  let s ← get
  if amLeader E s = true then do
    executeUptoOp E s.lastOp
    reset .sync
  else reset .leaderSyncHeard

/-- `SendGapRequest`. -/
def sendGapRequest : ServerHandler σ Unit := do
  let s ← get
  let m := ToServerMessage.gapRequest s.viewNum (s.lastOp + 1)
  emit (if amLeader E s = true then E.toAll m else E.toReplica (E.config.getLeaderIndex s.view) m)
  reset .gapRequest

/-- `SendStateTransferRequest`. -/
def sendStateTransferRequest : ServerHandler σ Unit := do
  let s ← get
  let p := s.pendingStateTransfer
  emit (E.toReplica p.replicaIdx
    (.stateTransferRequest { view := s.viewNum, start := p.start, stop := p.stop }))
  reset .stateTransfer

/-- `SendFCQueries`. -/
def sendFCQueries : ServerHandler σ Unit := do
  let s ← get
  assert (s.status = .viewChange)
  assert (s.pendingFCQueries.size ≠ 0)
  forEach s.pendingFCQueries.toList fun stamp => invokeFC E (.txnInfoReq stamp.stamp)
  reset .fcQueries

/-- `SendEpochChangeAck`. -/
def sendEpochChangeAck : ServerHandler σ Unit := do
  let s ← get
  invokeFC E (.epochChangeAck
    { lastNormalEpoch := s.lastNormalSessnum, opNum := s.lastOp, logInfo := s.shardToMsgnum.toList })
  reset .epochChangeAck

/-- `SendEpochChangeStateTransfer`. -/
def sendEpochChangeStateTransfer : ServerHandler σ Unit := do
  let s ← get
  if s.pendingECStateTransfer.requests.size = 0 then stop .ecStateTransfer
  else do
    forEach s.pendingECStateTransfer.requests.toList fun kv =>
      emit (.toNodes [.replica kv.1 kv.2.1] (.epochChangeStateTransferRequest kv.2.2))
    reset .ecStateTransfer

/-- `SendEpochChangeStateTransferAck`. -/
def sendEpochChangeStateTransferAck : ServerHandler σ Unit := do
  let s ← get
  invokeFC E (.epochChangeStateTransferAck
    { opNum := s.lastOp, drops := s.pendingECStateTransfer.drops.toList.map MsgStamp.stamp })
  reset .ecStateTransferAck

/-- `CompleteECStateTransfer`. -/
def completeECStateTransfer : ServerHandler σ Unit := do
  stop .ecStateTransfer
  sendEpochChangeStateTransferAck E

/-- `MatchLogWithTempDrops`: is this a message that has been received? -/
def Server.received (s : Server σ) (stamp : MsgStamp) : ServerHandler σ Bool :=
  match s.txnLookup stamp with
  | none => pure false
  | some opnum => do
    let entry ← ofOption (s.log.find opnum)
    return entry.state = .received

/-- The loop of `MatchLogWithTempDrops`. -/
def matchStamp (stamp : MsgStamp) : ServerHandler σ Unit := do
  let s ← get
  let received ← s.received stamp
  when (received = true) <|
    modify fun s => { s with pendingFCQueries := s.pendingFCQueries.insert stamp }

/-- `MatchLogWithTempDrops`: does none of the messages that the replica has promised to drop appear in the
    log? -/
def matchLogWithTempDrops : ServerHandler σ Bool := do
  let s ← get
  assert (s.pendingFCQueries.size = 0)
  forEach s.tempDrops.toList matchStamp
  let s ← get
  if s.pendingFCQueries.size = 0 then return true
  else do
    sendFCQueries E
    return false

/-- The view is entered unless the failure coordinator has to be asked. -/
def matchAndEnterView : ServerHandler σ Unit := do
  let matched ← matchLogWithTempDrops E
  when (matched = true) (enterView E)

/-- `pendingStateTransfer.callback`. -/
def transferCallback : TransferCallback → ServerHandler σ Unit
  | .matchLog => matchAndEnterView E
  | .startView opnum => do
    modify fun s => { s with lastCommittedOp := opnum }
    matchAndEnterView E
  | .enterEpoch => enterEpoch E

/-- `CompleteFCQuery`. Its first comparison is with `!STATUS_VIEW_CHANGE`, which is `STATUS_NORMAL`. -/
def completeFCQuery (stamp : MsgStamp) : ServerHandler σ Unit := do
  let s ← get
  when (¬ (s.status = .normal ∨ s.active .fcQueries = false ∨ s.pendingFCQueries.size = 0)) do
    modify fun s => { s with pendingFCQueries := s.pendingFCQueries.erase stamp }
    let s ← get
    when (s.pendingFCQueries.size = 0) do
      stop .fcQueries
      enterView E

/-- `CheckViewNumAndStatus`. -/
def checkViewNumAndStatus (view : ViewNum) : ServerHandler σ Bool := do
  let s ← get
  if view.sessNum < s.sessnum ∨ view.viewNum < s.view then return false
  else if view.sessNum > s.sessnum then do
    detectedEpochChange E view.sessNum
    return false
  else if view.viewNum > s.view then do
    startViewChange E view.viewNum
    return false
  else return s.status = .normal

/-! ### Messages of the clients -/

/-- `TryProcessClientRequest`: is the request processed or ignored? -/
def tryProcessClientRequest (msg : RequestMessage) (sessnum msgnum : Nat) : ServerHandler σ Bool := do
  let s ← get
  if sessnum < s.sessnum then return true
  else if sessnum > s.sessnum then do
    detectedEpochChange E sessnum
    return false
  else if s.status ≠ .normal then return false
  else if msgnum < s.nextMsgnum then return true
  else if msgnum > s.nextMsgnum then do
    when (s.active .gapRequest = false ∧ s.active .startGapRequest = false ∧
      s.active .fcTxnInfoRequest = false) (reset .startGapRequest)
    return false
  else do
    processNextOperation E msg { s.nextVs E with sessnum := sessnum, msgnum := msgnum } .received
    return true

/-- `pendingRequests.insert`: a search for the first one that is not less, before which it is put unless the
    two count as equal. -/
def insertPending (r : PendingRequest) : List PendingRequest → List PendingRequest
  | [] => [r]
  | x :: xs => if x.less r then x :: insertPending r xs else if r.less x then r :: x :: xs else x :: xs

/-- `HandleClientRequest`. The stamp has the number of the session, and for each group that the sequencer has
    addressed the number of the message. -/
def handleClientRequest (msg : RequestMessage) (sessNum : Nat) (msgNums : Nat → Option Nat) :
    ServerHandler σ Unit := do
  let msgNum ← ofOption (msgNums E.groupIdx)
  let done ← tryProcessClientRequest E msg sessNum msgNum
  when (done = false) <| modify fun s => { s with
    pendingRequests := insertPending ⟨sessNum, msgNum, msg⟩ s.pendingRequests }

/-- The loop of `ProcessPendingRequests`. -/
def processPending : List PendingRequest → ServerHandler σ Unit
  | [] => pure ()
  | r :: rs => do
    let done ← tryProcessClientRequest E r.requestMessage r.sessnum r.msgnum
    when (done = true) do
      modify fun s => { s with pendingRequests := s.pendingRequests.tail }
      processPending rs

/-- `ProcessPendingRequests`. -/
def processPendingRequests : ServerHandler σ Unit := do
  let s ← get
  when (s.status = .normal) (processPending E s.pendingRequests)

/-! ### Gaps -/

/-- `HandleGapRequest`. -/
def handleGapRequest (remote : Node) (view : ViewNum) (opNum : Nat) : ServerHandler σ Unit := do
  let ok ← checkViewNumAndStatus E view
  when (ok = true) do
    let s ← get
    let reply (isfound isgap : Bool) (req : Option RequestMessage) : ServerHandler σ Unit :=
      emit (.toNodes [remote] (.gapReply
        { view := s.viewNum, opNum := opNum, isfound := isfound, isgap := isgap
          replicaNum := E.replicaIdx, req := req }))
    match s.log.find opNum with
    | some entry =>
      if entry.state = .received then reply true false (some entry.message)
      else if entry.state = .noop then reply true true (some .blank)
      else abort
    | none => when (s.active .gapRequest = true ∧ s.lastOp + 1 = opNum) (reply false false none)

/-- `HandleGapReply`. -/
def handleGapReply (msg : GapReplyMessage) : ServerHandler σ Unit := do
  let ok ← checkViewNumAndStatus E msg.view
  when (ok = true) do
    let s ← get
    when (msg.opNum = s.lastOp + 1) <|
      if msg.isfound = true then
        if msg.isgap = true then processNextOperation E .blank (s.nextVs E) .noop
        else do
          let req ← ofOption msg.req
          processNextOperation E req (s.nextVs E) .received
      else when (amLeader E s = true) do
        modify fun s => { s with
          gapReplyQuorum := s.gapReplyQuorum.add (s.lastOp + 1) msg.replicaNum () }
        let s ← get
        whenSome (s.gapReplyQuorum.checkForQuorum (s.lastOp + 1)) fun _ => queryFCForLastTxn E

/-! ### Messages of the failure coordinator -/

/-- `HandleFCToErisMessage`: is the message about this session? One of a later session starts the change to
    that one. -/
def checkSession (sessNum : Nat) : ServerHandler σ Bool := do
  let s ← get
  if s.status = .epochChange ∨ sessNum < s.sessnum then return false
  else if sessNum > s.sessnum then do
    detectedEpochChange E sessNum
    return false
  else return true

/-- `HandleFCToErisMessage`: another shard is asking for a message. -/
def handleTxnCheck (txnNum : Stamp) : ServerHandler σ Unit := do
  let ok ← checkSession E txnNum.sessNum
  when (ok = true) do
    let s ← get
    let stamp := MsgStamp.of txnNum.shardNum txnNum.msgNum txnNum.sessNum
    when (stamp ∉ s.permDrops.toList ∧ stamp ∉ s.unDrops.toList) do
      let entry := (s.txnLookup stamp).bind s.log.find
      assert (stamp ∈ s.tempDrops.toList → entry = none)
      match entry with
      | some e => do
        assert (e.state = .received)
        invokeFC E (.txnReceived e.message)
      | none => do
        installTempDrop stamp
        invokeFC E (.txnTempDrop txnNum)

/-- The message number that a request has for this shard, by the first of its operations; 0 if there is
    none. -/
def ServerEnv.firstMsgnum (req : SequencedRequest) : Nat :=
  ((req.ops.find? fun op => op.shard = E.groupIdx).map ShardOp.msgnum).getD 0

/-- `HandleFCToErisMessage`: another shard has got the message. -/
def handleTxnFound (unDrop : RequestMessage) : ServerHandler σ Unit := do
  let ok ← checkSession E unDrop.request.sessnum
  when (ok = true) do
    let msgNum := E.firstMsgnum unDrop.request
    assert (msgNum > 0)
    installUnDrop E unDrop
    let s ← get
    when (s.status = .normal ∧ msgNum = s.nextMsgnum) <|
      processNextOperation E unDrop (s.nextVs E) .received
    let s ← get
    completeFCQuery E (.of E.groupIdx msgNum s.sessnum)

/-- `HandleFCToErisMessage`: a message is dropped for good. -/
def handleDropTxn (txnNum : Stamp) : ServerHandler σ Unit := do
  let ok ← checkSession E txnNum.sessNum
  when (ok = true) do
    let stamp := MsgStamp.of txnNum.shardNum txnNum.msgNum txnNum.sessNum
    installPermDrop E stamp
    let s ← get
    when (s.status = .normal ∧ txnNum.shardNum = E.groupIdx ∧ txnNum.msgNum = s.nextMsgnum) <|
      processNextOperation E .blank
        { view := s.view, opnum := s.lastOp + 1, sessnum := txnNum.sessNum, msgnum := txnNum.msgNum
          shardnum := txnNum.shardNum } .noop
    completeFCQuery E stamp

/-- `HandleFCToErisMessage`: the epoch changes. -/
def handleEpochChange (newEpochNum : Nat) : ServerHandler σ Unit := do
  let s ← get
  when (newEpochNum ≥ s.sessnum) do
    stop .epochChangeReq
    when (newEpochNum > s.sessnum) (startEpochChange newEpochNum)
    let s ← get
    when (s.status = .epochChange) (sendEpochChangeAck E)

/-- `HandleFCToErisMessage`: what a shard has more than this replica is to be asked for. -/
def requestTransfer (stateTransferEpochNum : Nat) (m : MsgEntry) : ServerHandler σ Unit := do
  let s ← get
  when (m.msgNum ≥ s.nextMsgnum) <| modify fun s => { s with
    pendingECStateTransfer := { s.pendingECStateTransfer with
      requests := s.pendingECStateTransfer.requests.insert m.shardNum
        (m.replicaNum,
          { sessNum := s.sessnum, stateTransferSessNum := stateTransferEpochNum
            shardNum := E.groupIdx, start := s.nextMsgnum, stop := m.msgNum + 1 }) } }

/-- `HandleFCToErisMessage`: the messages that this replica misses are to be transferred. -/
def handleECStateTransfer (m : EpochChangeStateTransfer) : ServerHandler σ Unit := do
  let s ← get
  assert (m.epochNum ≤ s.sessnum)
  when (s.status = .epochChange ∧ ¬ m.epochNum < s.sessnum) do
    stop .epochChangeAck
    when (s.pendingECStateTransfer.requests.size = 0) do
      forEach m.permDrops fun x => installPermDrop E (.ofStamp x)
      assert (s.lastNormalSessnum = m.stateTransferEpochNum)
      forEach m.latestMsgs (requestTransfer E m.stateTransferEpochNum)
      let s ← get
      if s.pendingECStateTransfer.requests.size = 0 then completeECStateTransfer E
      else sendEpochChangeStateTransfer

/-- `HandleFCToErisMessage`: the log of the replica is matched with the merged one. Is a state transfer needed
    for that? -/
def matchMergedLog (m : StartEpoch) : ServerHandler σ Bool := do
  let s ← get
  if s.lastNormalSessnum < m.lastNormalEpochNum then do
    rewindLog s.lastCommittedOp
    return true
  else do
    assert (s.lastNormalSessnum = m.lastNormalEpochNum)
    if s.lastOp < m.latestOpNum then return true
    else do
      when (s.lastOp > m.latestOpNum) (rewindLog m.latestOpNum)
      return false

/-- `HandleFCToErisMessage`: the rest of the log is to be transferred before the epoch is entered. -/
def transferForEpoch (m : StartEpoch) : ServerHandler σ Unit := do
  clearTimeoutAndQuorums
  modify fun s => { s with
    status := .epochChange
    pendingStateTransfer :=
      { start := s.lastOp + 1, stop := m.latestOpNum + 1, replicaIdx := m.latestReplicaNum
        callback := .enterEpoch } }
  sendStateTransferRequest E

/-- `HandleFCToErisMessage`: the epoch starts. -/
def handleStartEpoch (m : StartEpoch) : ServerHandler σ Unit := do
  let s ← get
  when (¬ m.newView.sessNum < s.sessnum ∧ ¬ (m.newView.sessNum = s.sessnum ∧ s.status ≠ .epochChange)) do
    stop .epochChangeAck
    assert (m.newView.viewNum ≥ s.view)
    modify fun s => { s with view := m.newView.viewNum, sessnum := m.newView.sessNum }
    if E.replicaIdx ≠ m.latestReplicaNum then do
      forEach m.permDrops fun x => installPermDrop E (.ofStamp x)
      let transfer ← matchMergedLog m
      if transfer = true then transferForEpoch E m else enterEpoch E
    else enterEpoch E

/-- `HandleFCToErisMessage`. -/
def handleFCToErisMessage : FCToErisMessage → ServerHandler σ Unit
  | .txnCheck txnNum => handleTxnCheck E txnNum
  | .txnFound txn => handleTxnFound E txn
  | .dropTxn txnNum => handleDropTxn E txnNum
  | .epochChange newEpochNum => handleEpochChange E newEpochNum
  | .epochChangeStateTransfer m => handleECStateTransfer E m
  | .startEpoch m => handleStartEpoch E m

/-! ### View changes -/

/-- `HandleSyncPrepare`. -/
def handleSyncPrepare (view : ViewNum) : ServerHandler σ Unit := do
  let ok ← checkViewNumAndStatus E view
  when (ok = true) (reset .leaderSyncHeard)

/-- `HandleViewChangeRequest`. -/
def handleViewChangeRequest (view : ViewNum) : ServerHandler σ Unit := do
  let _ ← checkViewNumAndStatus E view

/-- `HandleViewChange`: the longest log, and which replica has it if it is longer than one's own. -/
def longestLog (lastOp : Nat) (msgs : List (Nat × ViewChangeMessage)) : Nat × Option Nat :=
  msgs.foldl (fun best kv => if kv.2.opNum > best.1 then (kv.2.opNum, some kv.2.replicaNum) else best)
    (lastOp, none)

/-- `HandleViewChange`: a quorum of replicas has joined the view. -/
def mergeLogs (msgs : StdMap Nat ViewChangeMessage) : ServerHandler σ Unit := do
  let s ← get
  forEach msgs.toList fun kv => mergeDropTxns E kv.2.drops
  checkTempDrops
  match longestLog s.lastOp msgs.toList with
  | (latestOp, some idx) => do
    modify fun s => { s with pendingStateTransfer :=
      { start := s.lastOp + 1, stop := latestOp + 1, replicaIdx := idx, callback := .matchLog } }
    sendStateTransferRequest E
  | (_, none) => matchAndEnterView E

/-- `HandleViewChange`, for the view that the replica is in now. -/
def joinView (remote : Node) (msg : ViewChangeMessage) : ServerHandler σ Unit := do
  let s ← get
  assert (msg.view = s.viewNum)
  assert (amLeader E s = true)
  if s.status ≠ .viewChange then emit (.toNodes [remote] (startViewMessage s))
  else when (s.active .stateTransfer = false ∧ s.active .fcQueries = false) do
    modify fun s => { s with
      viewChangeQuorum := s.viewChangeQuorum.add msg.view.viewNum msg.replicaNum msg }
    let s ← get
    whenSome (s.viewChangeQuorum.checkForQuorum msg.view.viewNum) (mergeLogs E)

/-- `HandleViewChange`. -/
def handleViewChange (remote : Node) (msg : ViewChangeMessage) : ServerHandler σ Unit := do
  let s ← get
  when (¬ (msg.view.sessNum < s.sessnum ∨ msg.view.viewNum < s.view)) <|
    if msg.view.sessNum > s.sessnum then detectedEpochChange E msg.view.sessNum
    else do
      when (msg.view.viewNum > s.view) (startViewChange E msg.view.viewNum)
      joinView E remote msg

/-- `HandleStartView`, for a view that the replica has not entered. -/
def joinStartedView (msg : StartViewMessage) : ServerHandler σ Unit := do
  assert (E.config.getLeaderIndex msg.view.viewNum ≠ E.replicaIdx)
  let s ← get
  when (s.active .stateTransfer = false ∧ s.active .fcQueries = false) do
    mergeDropTxns E msg.drops
    checkTempDrops
    modify fun s => { s with view := msg.view.viewNum, status := .viewChange }
    clearTimeoutAndQuorums
    let s ← get
    if msg.opNum > s.lastOp then do
      modify fun s => { s with pendingStateTransfer :=
        { start := s.lastOp + 1, stop := msg.opNum + 1
          replicaIdx := E.config.getLeaderIndex msg.view.viewNum, callback := .startView msg.opNum } }
      sendStateTransferRequest E
    else do
      modify fun s => { s with lastCommittedOp := msg.opNum }
      matchAndEnterView E

/-- `HandleStartView`. -/
def handleStartView (msg : StartViewMessage) : ServerHandler σ Unit := do
  let s ← get
  when (¬ (msg.view.sessNum < s.sessnum ∨ msg.view.viewNum < s.view)) <|
    if msg.view.sessNum > s.sessnum then detectedEpochChange E msg.view.sessNum
    else when (¬ (msg.view.viewNum = s.view ∧ s.status ≠ .viewChange)) (joinStartedView E msg)

/-! ### State transfer -/

/-- `HandleStateTransferRequest`: the entry as it is sent. -/
def dumpEntry (e : ErisLogEntry) : MsgLogEntry where
  view := e.viewstamp.view
  opNum := e.viewstamp.opnum
  sessNum := e.viewstamp.sessnum
  msgNum := e.viewstamp.msgnum
  shardNum := e.viewstamp.shardnum
  state := e.state
  request := { e.message with
    request := if e.state = .noop then RequestMessage.blank.request else e.request }

/-- `HandleStateTransferRequest`. -/
def handleStateTransferRequest (remote : Node) (msg : StateTransferRequest) : ServerHandler σ Unit := do
  let s ← get
  when (msg.view = s.viewNum ∧ ¬ (msg.start > s.lastOp ∨ msg.stop > s.lastOp + 1)) do
    let entries ← ofOption
      (((List.range' msg.start (msg.stop - msg.start)).map s.log.find).mapM id)
    emit (.toNodes [remote] (.stateTransferReply
      { view := s.viewNum, start := msg.start, stop := msg.stop, entries := entries.map dumpEntry }))

/-- `HandleStateTransferReply`: one entry. -/
def installEntry (entry : MsgLogEntry) : ServerHandler σ Unit := do
  let s ← get
  assert (entry.opNum = s.lastOp + 1)
  assert (entry.msgNum = s.nextMsgnum)
  let vs : Viewstamp :=
    { view := entry.view, opnum := entry.opNum, sessnum := entry.sessNum, msgnum := entry.msgNum
      shardnum := entry.shardNum }
  if MsgStamp.of entry.shardNum entry.msgNum entry.sessNum ∈ s.permDrops.toList then
    installLogEntry vs .noop .blank
  else installLogEntry vs entry.state entry.request

/-- `HandleStateTransferReply`. -/
def handleStateTransferReply (msg : StateTransferReply) : ServerHandler σ Unit := do
  let s ← get
  when (msg.view = s.viewNum ∧ ¬ (msg.stop ≠ 0 ∧ msg.stop - 1 ≤ s.lastOp)) do
    let first ← ofOption msg.entries.head?
    let last ← ofOption msg.entries.getLast?
    assert (first.opNum = msg.start)
    assert (last.opNum + 1 = msg.stop)
    -- an entry with an index below 0
    assert (¬ s.lastOp + 1 < msg.start)
    forEach (msg.entries.drop (s.lastOp + 1 - msg.start)) installEntry
    let s ← get
    when (s.active .stateTransfer = true ∧ msg.stop ≥ s.pendingStateTransfer.stop) do
      stop .stateTransfer
      transferCallback E s.pendingStateTransfer.callback

/-! ### State transfer between shards -/

/-- `HandleEpochChangeStateTransferRequest`: the message with this number, if the replica has it. -/
def Server.transferEntry (s : Server σ) (msg : ECTransferRequest) (i : Nat) :
    ServerHandler σ (Option ECTransferEntry) :=
  match s.txnLookup (.of msg.shardNum i msg.stateTransferSessNum) with
  | none => pure none
  | some opnum => do
    let entry ← ofOption (s.log.find opnum)
    return some { msgNum := i, request := entry.message }

/-- `HandleEpochChangeStateTransferRequest`: the messages with these numbers that the replica has. -/
def Server.transferEntries (s : Server σ) (msg : ECTransferRequest) :
    List Nat → ServerHandler σ (List ECTransferEntry)
  | [] => pure []
  | i :: is => do
    let e ← s.transferEntry msg i
    let es ← Server.transferEntries s msg is
    return e.toList ++ es

/-- `HandleEpochChangeStateTransferRequest`. -/
def handleECTransferRequest (remote : Node) (msg : ECTransferRequest) : ServerHandler σ Unit := do
  let s ← get
  when (¬ (msg.sessNum < s.sessnum ∨ s.status ≠ .epochChange)) do
    assert (msg.sessNum = s.sessnum)
    assert (s.lastNormalSessnum = msg.stateTransferSessNum)
    assert ((s.txnLookup (.of msg.shardNum (msg.stop - 1) msg.stateTransferSessNum)).isSome = true)
    let entries ← s.transferEntries msg (List.range' msg.start (msg.stop - msg.start))
    emit (.toNodes [remote] (.epochChangeStateTransferReply
      { sessNum := msg.sessNum, stateTransferSessNum := msg.stateTransferSessNum
        shardNum := E.groupIdx, entries := entries }))

/-- The stamp of a message of this shard in the epoch that ends. -/
def Server.stampOf (s : Server σ) (msgNum : Nat) : MsgStamp := .of E.groupIdx msgNum s.lastNormalSessnum

/-- `HandleEpochChangeStateTransferReply`: a message with a number that the log has got already. -/
def replaceEntry (m : ECTransferEntry) : ServerHandler σ Unit := do
  let s ← get
  let opnum := s.lastOp + 1 - (s.nextMsgnum - m.msgNum)
  let entry ← ofOption (s.log.find opnum)
  when (entry.state = .noop) <| modify fun s => { s with
    log := s.log.change opnum .received m.request.request { txnid := m.request.txnid, type := m.request.type }
    pendingECStateTransfer := { s.pendingECStateTransfer with
      drops := s.pendingECStateTransfer.drops.erase (s.stampOf E m.msgNum) } }

/-- `HandleEpochChangeStateTransferReply`: the next entry, for the message if it has this number. -/
def appendNext (m : ECTransferEntry) : ServerHandler σ Unit := do
  let s ← get
  let i := s.nextMsgnum
  modify fun s => { s with lastOp := s.lastOp + 1, nextMsgnum := s.nextMsgnum + 1 }
  let vs : Viewstamp :=
    { view := s.view, opnum := s.lastOp + 1, sessnum := s.lastNormalSessnum, msgnum := i
      shardnum := E.groupIdx }
  if i < m.msgNum then do
    append { viewstamp := vs, state := .noop, request := RequestMessage.blank.request }
    modify fun s => { s with pendingECStateTransfer := { s.pendingECStateTransfer with
      drops := s.pendingECStateTransfer.drops.insert (s.stampOf E i) } }
  else append { viewstamp := vs, state := .received, request := m.request.request
                txnData := { txnid := m.request.txnid, type := m.request.type } }

/-- `HandleEpochChangeStateTransferReply`: one message. -/
def transferMessage (m : ECTransferEntry) : ServerHandler σ Unit := do
  let s ← get
  when (s.stampOf E m.msgNum ∉ s.permDrops.toList) <|
    if m.msgNum < s.nextMsgnum then replaceEntry E m
    else iterate (m.msgNum + 1 - s.nextMsgnum) (appendNext E m)

/-- `HandleEpochChangeStateTransferReply`. -/
def handleECTransferReply (msg : ECTransferReply) : ServerHandler σ Unit := do
  let s ← get
  when (¬ (msg.sessNum ≠ s.sessnum ∨ s.status ≠ .epochChange)) do
    assert (msg.stateTransferSessNum = s.lastNormalSessnum)
    when ((s.pendingECStateTransfer.requests.find? msg.shardNum).isSome = true) do
      forEach msg.entries (transferMessage E)
      modify fun s => { s with pendingECStateTransfer := { s.pendingECStateTransfer with
        requests := s.pendingECStateTransfer.requests.erase msg.shardNum } }
      let s ← get
      when (s.pendingECStateTransfer.requests.size = 0) (completeECStateTransfer E)

/-! ### The replica -/

/-- What `ReceiveMessage` does before it goes through the pending requests; the numbers come from the stamp
    of the message. -/
def handleMessage (remote : Node) (sessNum : Nat) (msgNums : Nat → Option Nat) :
    ToServerMessage → ServerHandler σ Unit
  | .request msg => handleClientRequest E msg sessNum msgNums
  | .gapRequest view opNum => handleGapRequest E remote view opNum
  | .gapReply msg => handleGapReply E msg
  | .fc msg => handleFCToErisMessage E msg
  | .syncPrepare view => handleSyncPrepare E view
  | .viewChangeRequest view => handleViewChangeRequest E view
  | .viewChange msg => handleViewChange E remote msg
  | .startView msg => handleStartView E msg
  | .stateTransferRequest msg => handleStateTransferRequest remote msg
  | .stateTransferReply msg => handleStateTransferReply E msg
  | .epochChangeStateTransferRequest msg => handleECTransferRequest E remote msg
  | .epochChangeStateTransferReply msg => handleECTransferReply E msg

/-- `ReceiveMessage`. -/
def receiveMessage (remote : Node) (sessNum : Nat) (msgNums : Nat → Option Nat) (m : ToServerMessage) :
    ServerHandler σ Unit := do
  handleMessage E remote sessNum msgNums m
  processPendingRequests E

/-- What happens when a timer fires, which starts again by itself. -/
def timeout : Timer → ServerHandler σ Unit
  | .startGapRequest => do
    stop .startGapRequest
    sendGapRequest E
  | .gapRequest => do
    let s ← get
    if amLeader E s = true then queryFCForLastTxn E else sendGapRequest E
  | .fcTxnInfoRequest => queryFCForLastTxn E
  | .sync => do
    let s ← get
    assert (amLeader E s = true)
    emit (E.toAll (.syncPrepare s.viewNum))
  | .leaderSyncHeard => do
    let s ← get
    startViewChange E (s.view + 1)
  | .viewChange => sendViewChange E
  | .stateTransfer => sendStateTransferRequest E
  | .fcQueries => sendFCQueries E
  | .epochChangeReq => sendEpochChangeReq E
  | .epochChangeAck => sendEpochChangeAck E
  | .ecStateTransfer => sendEpochChangeStateTransfer
  | .ecStateTransferAck => sendEpochChangeStateTransferAck E

/-- The constructor. -/
def Server.initial : Server σ where
  log := .empty
  status := .normal
  lastOp := 0
  view := 0
  sessnum := 0
  nextMsgnum := 1
  lastNormalSessnum := 0
  lastCommittedOp := 0
  lastExecutedOp := 0
  txnLookup _ := none
  shardToMsgnum := initShardMsgNum E.config.g StdMap.empty
  clientTable _ := none
  pendingRequests := []
  blockedTxns := StdMap.empty
  unblockedExecutionQueue := StdSet.empty
  gapReplyQuorum := QuorumSet.new (E.config.n - 1)
  viewChangeQuorum := QuorumSet.new (E.config.n - 1)
  tempDrops := StdSet.empty
  permDrops := StdSet.empty
  unDrops := StdSet.empty
  unDropMsgs := StdMap.empty
  pendingFCQueries := StdSet.empty
  pendingStateTransfer := {}
  pendingECStateTransfer := { requests := StdMap.empty, drops := StdSet.empty }
  active t := t = if E.config.getLeaderIndex 0 = E.replicaIdx then .sync else .leaderSyncHeard
  app := .initial E.app
  entered := 0

/-- What can happen to a replica: a message comes, with the numbers of its stamp, or a timer fires. -/
inductive ServerEvent where
  | message (remote : Node) (sessNum : Nat) (msgNums : Nat → Option Nat) (m : ToServerMessage)
  | timeout (t : Timer)

/-- The handler of an event, if it can happen. -/
def Server.handler (s : Server σ) : ServerEvent → Option (ServerHandler σ Unit)
  | .message remote sessNum msgNums m => some (receiveMessage E remote sessNum msgNums m)
  | .timeout t => if s.active t = true then some (timeout E t) else none

/-- A replica, to which any messages can come at any time. A process that has ended takes no step. -/
def serverSystem : System (Server σ) ServerEvent where
  init := .initial E
  step s e := (s.handler E e).bind fun m =>
    match m s with
    | (some (), s', _) => some s'
    | (none, _, _) => none

end Dsnet.Eris
