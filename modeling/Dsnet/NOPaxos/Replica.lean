import Mathlib.Data.List.Sort
import Dsnet.Lib.StdSet
import Dsnet.Common.Network
import Dsnet.Common.Quorum
import Dsnet.NOPaxos.Message

/-! `replication/nopaxos/replica.{h,cc}`: the NOPaxos replica, handler by handler.

    A sequencer numbers the requests of the clients, and every replica logs them in that order by
    itself. A replica that misses a message asks for it, and the leader may have everybody log a NOOP in
    its place (`StartGapAgreement`). A view ID, a session number and a view number, changes with the
    leader or with the sequencer: the new leader merges the logs of a quorum, and the others bring
    theirs into line with it (`HandleStartView`).

    Logging is left out; `RPanic` and a failed `ASSERT` both end the process, and so does a null pointer
    or an index out of range. -/

namespace Dsnet.NOPaxos
open Handler

/-! ### The state of a replica -/

/-- `ClientTableEntry`. -/
structure ClientTableEntry where
  lastReqId : Nat := 0
  reply : ReplyMessage := {}
  deriving DecidableEq

/-- The arguments of the constructor; `lookupAddress` is the transport's. -/
structure Env where
  config : Configuration
  replicaIdx : Nat
  app : App
  lookupAddress : String → Addr

/-- The timers of a replica. -/
inductive Timer where
  | gapRequest | gapCommit | viewChange | stateTransfer | startView | sync | leaderSyncHeard
  deriving DecidableEq

/-- What `stateTransferCallback` is set to. -/
inductive Callback where
  | enterView | processSyncPrepare (syncpoint : Nat)
  deriving DecidableEq

/-- The members of `NOPaxosReplica`. -/
structure Replica where
  status : ReplicaStatus
  log : Log
  view : Nat
  sessnum : Nat
  lastOp : Nat
  nextMsgnum : Nat
  lastNormalView : Nat
  lastNormalSessnum : Nat
  lastCommittedOp : Nat
  lastExecutedOp : Nat
  clientTable : Nat → Option ClientTableEntry
  pendingRequests : List RequestMessage
  pendingRequestsSorted : Bool
  gapReplyQuorum : QuorumSet Nat GapReplyMessage
  gapCommitQuorum : QuorumSet Nat GapCommitReplyMessage
  viewChangeQuorum : QuorumSet (Nat × Nat) ViewChangeMessage
  startViewQuorum : QuorumSet (Nat × Nat) StartViewReplyMessage
  syncPrepareQuorum : QuorumSet Nat SyncPrepareReplyMessage
  committedGaps : StdSet Nat
  active : Timer → Bool
  stateTransferOpBegin : Nat
  stateTransferOpEnd : Nat
  stateTransferReplicaIdx : Nat
  stateTransferCallback : Option Callback
  startViewLastNormalSessnum : Nat
  startViewLastNormalView : Nat
  startViewLastOp : Nat
  startViewCommittedGaps : StdSet Nat
  leaderLastSyncPreparePoint : Nat
  leaderLastSyncCommittedGaps : StdSet Nat
  receivedSyncPreparePoints : StdSet Nat
  receivedSyncCommitPoints : StdSet Nat
  upcalls : List Upcall

/-- What a handler hands to the transport. -/
abbrev Output := Net.Output ToReplicaMessage ToClientMessage

/-- What a `NOPaxosReplica` handler computes. -/
abbrev NOPaxosHandler := Handler Replica Output

namespace Replica

/-- `timer->Reset()` and `timer->Start()`. -/
def start (s : Replica) (t : Timer) : Replica :=
  { s with active := fun u => if u = t then true else s.active u }

/-- `timer->Stop()`. -/
def stop (s : Replica) (t : Timer) : Replica :=
  { s with active := fun u => if u = t then false else s.active u }

/-- `clientTable[clientid]`, which creates the entry when it is missing. -/
def clientEntry (s : Replica) (clientid : Nat) : ClientTableEntry :=
  (s.clientTable clientid).getD {}

def setClientEntry (s : Replica) (clientid : Nat) (e : ClientTableEntry) : Replica :=
  { s with clientTable := fun c => if c = clientid then some e else s.clientTable c }

/-- The session number and the view number. -/
def viewId (s : Replica) : Nat × Nat := (s.sessnum, s.view)

/-- `ClearTimeoutAndQuorums`. -/
def clearTimeoutAndQuorums (s : Replica) : Replica :=
  { s with
    active := fun _ => false
    gapReplyQuorum := s.gapReplyQuorum.clear
    gapCommitQuorum := s.gapCommitQuorum.clear
    viewChangeQuorum := s.viewChangeQuorum.clear
    startViewQuorum := s.startViewQuorum.clear
    syncPrepareQuorum := s.syncPrepareQuorum.clear
    receivedSyncPreparePoints := StdSet.empty
    receivedSyncCommitPoints := StdSet.empty
    stateTransferOpBegin := 0
    stateTransferOpEnd := 0 }

/-- `nextMsgnum` when the next log position expects session `sessnum`. -/
def nextMsgnumIn (s : Replica) (sessnum : Nat) : Nat :=
  if sessnum > s.log.lastViewstamp.sessnum then 1 else s.nextMsgnum

end Replica

variable (E : Env)

/-- `AmLeader`. -/
def amLeader (s : Replica) : Prop := E.config.getLeaderIndex s.view = E.replicaIdx

instance (s : Replica) : Decidable (amLeader E s) := inferInstanceAs (Decidable (_ = _))

/-- `MAX_SYNC_TRANSFER_OPS`. -/
def maxSyncTransferOps : Nat := 10

/-! ### Executing and committing -/

/-- `UpdateClientTable`. -/
def updateClientTable (req : Request) (reply : ReplyMessage) : NOPaxosHandler Unit := do
  let s ← get
  let entry := s.clientEntry req.clientid
  assert (entry.lastReqId ≤ req.clientreqid)
  modify (·.setClientEntry req.clientid
    (if entry.lastReqId = req.clientreqid then entry
    else { lastReqId := req.clientreqid, reply := if amLeader E s then reply else entry.reply }))

/-- `ExecuteUptoOp`: the leader of the view in which the entry was logged answers the client. -/
def replyExecuted (op : Nat) (entry : LogEntry) (reply : String) : NOPaxosHandler Unit :=
  when (E.config.getLeaderIndex entry.view = E.replicaIdx) <|
    emit (.toClient (E.lookupAddress entry.request.clientaddr) (.reply
      { view := entry.view, sessnum := entry.viewstamp.sessnum, opnum := op
        clientreqid := entry.request.clientreqid, replicaidx := E.replicaIdx, reply := some reply }))

/-- `ExecuteUptoOp` of a request that is new to the client table. -/
def executeRequest (op : Nat) (entry : LogEntry) : NOPaxosHandler Unit := do
  let s ← get
  let reply := E.app.replicaUpcall s.upcalls op entry.request.op false
  modify fun s => { s with upcalls := s.upcalls ++ [.execute op entry.request] }
  updateClientTable E entry.request { reply := some reply }
  replyExecuted E op entry reply

/-- The body of the loop of `ExecuteUptoOp`. -/
def executeNext : NOPaxosHandler Unit := do
  let s ← get
  let op := s.lastExecutedOp + 1
  assert (op ≤ s.lastOp)
  let entry ← ofOption (s.log.find op)
  modify fun s => { s with lastExecutedOp := op }
  when (entry.state = .received) <|
    match s.clientTable entry.request.clientid with
    | none => executeRequest E op entry
    | some cte =>
      if entry.request.clientreqid < cte.lastReqId then pure ()
      else if entry.request.clientreqid = cte.lastReqId then
        replyExecuted E op entry (cte.reply.reply.getD "")
      else executeRequest E op entry

/-- `ExecuteUptoOp`. -/
def executeUptoOp (opnum : Nat) : NOPaxosHandler Unit := do
  let s ← get
  if opnum ≤ s.lastExecutedOp then return
  assert (¬ opnum > s.lastOp)
  iterate (opnum - s.lastExecutedOp) (executeNext E)

/-- `SendSyncCommit`. -/
def sendSyncCommit : NOPaxosHandler Unit := do
  let s ← get
  assert (amLeader E s)
  emit (.toAll (.syncCommit
    { sessnum := s.sessnum, view := s.view, syncpoint := s.lastCommittedOp }))

/-- `CommitUptoOp`. -/
def commitUptoOp (opnum : Nat) : NOPaxosHandler Unit := do
  let s ← get
  if opnum ≤ s.lastCommittedOp then return
  assert (¬ opnum > s.lastOp)
  modify fun s => { s with lastCommittedOp := opnum }
  when (amLeader E s) (sendSyncCommit E)
  executeUptoOp E opnum

/-! ### Entering a view -/

/-- The StartView message of the view. -/
def startViewMessage (s : Replica) : StartViewMessage where
  sessnum := s.sessnum
  view := s.view
  lastnormalsessnum := s.startViewLastNormalSessnum
  lastnormalview := s.startViewLastNormalView
  lastop := s.startViewLastOp
  committedgaps := s.startViewCommittedGaps.toList

/-- `SendStartView`. -/
def sendStartView : NOPaxosHandler Unit := do
  let s ← get
  assert (amLeader E s)
  emit (.toAll (.startView (startViewMessage s)))
  modify (·.start .startView)

/-- `SendStartViewReply`. -/
def sendStartViewReply : NOPaxosHandler Unit := do
  let s ← get
  assert (¬ amLeader E s)
  assert (s.status ≠ .viewChange)
  emit (.toReplica (E.config.getLeaderIndex s.view) (.startViewReply
    { sessnum := s.sessnum, view := s.view, replicaidx := E.replicaIdx }))

/-- The fields that `EnterView` sets before it sends anything. -/
def Replica.entered (s : Replica) (newsessnum newview : Nat) : Replica :=
  { s with
    nextMsgnum := s.nextMsgnumIn newsessnum
    sessnum := newsessnum
    view := newview
    lastNormalSessnum := newsessnum
    lastNormalView := newview
    status := .normal }.clearTimeoutAndQuorums

/-- `EnterView`. -/
def enterView (newsessnum newview : Nat) : NOPaxosHandler Unit := do
  let s ← get
  assert (newsessnum ≥ s.sessnum)
  assert (newview ≥ s.view)
  modify (·.entered newsessnum newview)
  let s ← get
  if amLeader E s then
    executeUptoOp E s.lastOp
    modify (·.start .sync)
    let s ← get
    assert (s.leaderLastSyncPreparePoint ≤ s.lastOp)
    modify fun s => { s with
      leaderLastSyncPreparePoint := s.lastOp
      leaderLastSyncCommittedGaps := s.committedGaps }
    sendStartView E
  else
    modify fun s => { s.start .leaderSyncHeard with
      receivedSyncPreparePoints := s.receivedSyncPreparePoints.insert s.lastOp }
    sendStartViewReply E

/-- `ProcessSyncPrepare`. -/
def processSyncPrepare (syncpoint : Nat) : NOPaxosHandler Unit := do
  let s ← get
  assert (¬ amLeader E s)
  if syncpoint ∈ s.receivedSyncCommitPoints.toList then
    commitUptoOp E syncpoint
    modify fun s => { s with
      receivedSyncPreparePoints := s.receivedSyncPreparePoints.erase syncpoint
      receivedSyncCommitPoints := s.receivedSyncCommitPoints.erase syncpoint }
  else
    emit (.toReplica (E.config.getLeaderIndex s.view) (.syncPrepareReply
      { sessnum := s.sessnum, view := s.view, syncpoint := syncpoint, replicaidx := E.replicaIdx }))

/-! ### Logging an operation -/

/-- What `ProcessNextOperation` does with an entry that it has appended. -/
def answerOperation (request : Request) (vs : Viewstamp) (state : LogEntryState) :
    NOPaxosHandler Unit :=
  if state = .noop then
    modify fun s => { s with committedGaps := s.committedGaps.insert s.lastOp }
  else when (state = .received) <|
    if E.config.getLeaderIndex vs.view = E.replicaIdx then executeUptoOp E vs.opnum
    else emit (.toClient (E.lookupAddress request.clientaddr) (.reply
      { view := vs.view, sessnum := vs.sessnum, opnum := vs.opnum
        clientreqid := request.clientreqid, replicaidx := E.replicaIdx }))

/-- `ProcessNextOperation` as far as the check of the state transfer. -/
def logOperation (request : Request) (vs : Viewstamp) (state : LogEntryState) :
    NOPaxosHandler Unit := do
  let s ← get
  assert (vs.opnum = s.lastOp + 1)
  modify fun s => { s with lastOp := vs.opnum, nextMsgnum := vs.msgnum + 1 }
  let state := if vs.opnum ∈ s.committedGaps.toList then .noop else state
  let log ← ofOption (s.log.append { viewstamp := vs, state := state, request := request })
  modify fun s => { s with log := log }
  when (s.active .gapRequest = true) <|
    modify fun s => { s.stop .gapRequest with gapReplyQuorum := s.gapReplyQuorum.clear }
  answerOperation E request vs state

/-- `ProcessNextOperation`: call back when the operation is the one that `stateTransferOpEnd` names. -/
def completeStateTransfer (opnum : Nat) : NOPaxosHandler Unit := do
  let s ← get
  when (opnum = s.stateTransferOpEnd) do
    modify (·.stop .stateTransfer)
    match s.stateTransferCallback with
    | none => abort
    | some .enterView => enterView E s.sessnum s.view
    | some (.processSyncPrepare syncpoint) => processSyncPrepare E syncpoint

/-- `ProcessNextOperation` without the recursive call. -/
def processOperation (request : Request) (vs : Viewstamp) (state : LogEntryState) :
    NOPaxosHandler Unit := do
  logOperation E request vs state
  completeStateTransfer E vs.opnum

/-- The recursive calls of `ProcessNextOperation`, at most `n` of them: while the next opnum is a
    committed gap, it is logged as one, with the stamp that follows `vs`. -/
def processGaps (request : Request) : Nat → Viewstamp → NOPaxosHandler Unit
  | 0, _ => pure ()
  | n + 1, vs => do
    let s ← get
    when (s.lastOp + 1 ∈ s.committedGaps.toList) do
      let next := { vs with opnum := s.lastOp + 1, msgnum := s.nextMsgnum }
      processOperation E request next .noop
      processGaps request n next

/-- `ProcessNextOperation`. There are no more recursive calls than committed gaps. -/
def processNextOperation (request : Request) (vs : Viewstamp) (state : LogEntryState) :
    NOPaxosHandler Unit := do
  processOperation E request vs state
  let s ← get
  processGaps E request s.committedGaps.size vs

/-- The body of the loop of `InstallCommittedGaps`. -/
def installGap (gap : Nat) : NOPaxosHandler Unit := do
  let s ← get
  if gap ∈ s.committedGaps.toList then return
  modify fun s => { s with committedGaps := s.committedGaps.insert gap }
  when (s.lastOp + 1 = gap) <|
    processNextOperation E noopRequest
      { s.log.lastViewstamp with opnum := s.lastOp + 1, msgnum := s.nextMsgnum } .noop
  let s ← get
  when (s.lastOp ≥ gap) do
    let entry ← ofOption (s.log.find gap)
    when (entry.state ≠ .noop) do
      assert (s.lastCommittedOp < gap)
      assert (¬ s.lastExecutedOp ≥ gap)
      modify fun s => { s with log := s.log.setStatus gap .noop }

/-- `InstallCommittedGaps`. -/
def installCommittedGaps (committedgaps : List Nat) : NOPaxosHandler Unit :=
  forEach committedgaps (installGap E)

/-! ### Sending -/

/-- `SendGapRequest`. -/
def sendGapRequest : NOPaxosHandler Unit := do
  let s ← get
  let m : ToReplicaMessage :=
    .gapRequest { view := s.view, sessnum := s.sessnum, opnum := s.lastOp + 1 }
  emit (if amLeader E s then .toAll m else .toReplica (E.config.getLeaderIndex s.view) m)
  modify (·.start .gapRequest)

/-- `SendGapCommit`. -/
def sendGapCommit : NOPaxosHandler Unit := do
  let s ← get
  assert (amLeader E s)
  assert (s.status = .gapCommit)
  emit (.toAll (.gapCommit { sessnum := s.sessnum, view := s.view, opnum := s.lastOp }))
  modify (·.start .gapCommit)

/-- The ViewChange message of the replica. -/
def viewChangeMessage (s : Replica) : ViewChangeMessage where
  sessnum := s.sessnum
  view := s.view
  lastnormalsessnum := s.lastNormalSessnum
  lastnormalview := s.lastNormalView
  lastop := s.lastOp
  committedgaps := s.committedGaps.toList
  replicaidx := E.replicaIdx

/-- `SendViewChange`. -/
def sendViewChange : NOPaxosHandler Unit := do
  let s ← get
  emit (.toAll (.viewChangeRequest { sessnum := s.sessnum, view := s.view }))
  when (¬ amLeader E s) <|
    emit (.toReplica (E.config.getLeaderIndex s.view) (.viewChange (viewChangeMessage E s)))
  modify (·.start .viewChange)

/-- `SendStateTransferRequest`. -/
def sendStateTransferRequest : NOPaxosHandler Unit := do
  let s ← get
  emit (.toReplica s.stateTransferReplicaIdx (.stateTransferRequest
    { sessnum := s.sessnum, view := s.view
      opBegin := s.stateTransferOpBegin, opEnd := s.stateTransferOpEnd }))
  modify (·.start .stateTransfer)

/-- `SendSyncPrepare`. -/
def sendSyncPrepare : NOPaxosHandler Unit := do
  let s ← get
  assert (amLeader E s)
  modify fun s => { s with
    leaderLastSyncPreparePoint := s.lastOp
    leaderLastSyncCommittedGaps := s.committedGaps }
  emit (.toAll (.syncPrepare
    { sessnum := s.sessnum, view := s.view, lastop := s.lastOp
      committedgaps := s.committedGaps.toList }))

/-! ### Changing views -/

/-- The fields that `StartViewChange` sets before it sends anything. -/
def Replica.changing (s : Replica) (newsessnum newview : Nat) : Replica :=
  { s.clearTimeoutAndQuorums with
    sessnum := newsessnum
    view := newview
    nextMsgnum := s.nextMsgnumIn newsessnum
    status := .viewChange
    committedGaps := s.committedGaps.upTo s.lastOp }

/-- `StartViewChange`. -/
def startViewChange (newsessnum newview : Nat) : NOPaxosHandler Unit := do
  let s ← get
  assert (newsessnum > s.sessnum ∨ newview > s.view)
  modify (·.changing (max newsessnum s.sessnum) (max newview s.view))
  sendViewChange E

/-- `CheckViewNumAndStatus`. -/
def checkViewNumAndStatus (sessnum view : Nat) : NOPaxosHandler Bool := do
  let s ← get
  if sessnum < s.sessnum ∨ view < s.view then
    return false
  else if sessnum > s.sessnum ∨ view > s.view then
    startViewChange E sessnum view
    return false
  else
    return decide (s.status ≠ .viewChange)

/-- `RewindLogToOpnum`. -/
def rewindLogToOpnum (opnum : Nat) : NOPaxosHandler Unit := do
  let s ← get
  assert (opnum ≥ s.lastCommittedOp)
  assert (¬ opnum < s.lastExecutedOp)
  modify fun s => { s with lastOp := opnum }
  let log ← ofOption (s.log.removeAfter opnum)
  modify fun s => { s with log := log, nextMsgnum := log.lastViewstamp.msgnum + 1 }

/-! ### Gaps -/

/-- `StartGapAgreement`. -/
def startGapAgreement : NOPaxosHandler Unit := do
  let s ← get
  assert (amLeader E s)
  modify fun s => { s.stop .gapRequest with
    gapReplyQuorum := s.gapReplyQuorum.clear
    status := .gapCommit
    gapCommitQuorum := s.gapCommitQuorum.clear }
  processNextOperation E noopRequest
    { view := s.view, opnum := s.lastOp + 1, sessnum := s.sessnum, msgnum := s.nextMsgnum } .noop
  sendGapCommit E

/-- The reply to a GapRequest, if there is one. -/
def gapReplyMessage (s : Replica) (opnum : Nat) : Option (Option GapReplyMessage) :=
  let reply : GapReplyMessage :=
    { view := s.view, sessnum := s.sessnum, opnum := opnum, isfound := true, isgap := false
      replicaidx := E.replicaIdx, req := noopRequest }
  match s.log.find opnum with
  | some entry =>
    if entry.state = .received then some (some { reply with req := entry.request })
    else if entry.state = .noop then some (some { reply with isgap := true })
    else none
  | none =>
    if s.active .gapRequest = true ∧ s.lastOp + 1 = opnum then
      some (some { reply with isfound := false })
    else some none

/-- `HandleGapRequest`. -/
def handleGapRequest (remote : Addr) (msg : GapRequestMessage) : NOPaxosHandler Unit := do
  let ok ← checkViewNumAndStatus E msg.sessnum msg.view
  when (ok = true) do
    let s ← get
    let reply ← ofOption (gapReplyMessage E s msg.opnum)
    whenSome reply fun reply => emit (.toAddr remote (.gapReply reply))

/-- `HandleGapReply`. -/
def handleGapReply (msg : GapReplyMessage) : NOPaxosHandler Unit := do
  let ok ← checkViewNumAndStatus E msg.sessnum msg.view
  when (ok = true) do
    let s ← get
    when (msg.opnum = s.lastOp + 1) <|
      if s.status = .gapCommit then assert (amLeader E s)
      else if msg.isfound = true then
        processNextOperation E msg.req
          { view := s.view, opnum := s.lastOp + 1, sessnum := s.sessnum, msgnum := s.nextMsgnum }
          (if msg.isgap = true then .noop else .received)
      else when (amLeader E s) do
        let q := s.gapReplyQuorum.add (s.lastOp + 1) msg.replicaidx msg
        modify fun s => { s with gapReplyQuorum := q }
        whenSome (q.checkForQuorum (s.lastOp + 1)) fun _ => startGapAgreement E

/-- `HandleGapCommit`. -/
def handleGapCommit (remote : Addr) (msg : GapCommitMessage) : NOPaxosHandler Unit := do
  let ok ← checkViewNumAndStatus E msg.sessnum msg.view
  when (ok = true) do
    let s ← get
    assert (¬ amLeader E s)
    if s.lastOp + 1 < msg.opnum then
      modify fun s => { s with committedGaps := s.committedGaps.insert msg.opnum }
    else
      if s.lastOp ≥ msg.opnum then
        modify fun s => { s with
          committedGaps := s.committedGaps.insert msg.opnum
          log := s.log.setStatus msg.opnum .noop }
      else
        processNextOperation E noopRequest
          { view := s.view, opnum := s.lastOp + 1, sessnum := s.sessnum, msgnum := s.nextMsgnum } .noop
      let s ← get
      emit (.toAddr remote (.gapCommitReply
        { sessnum := s.sessnum, view := s.view, opnum := msg.opnum, replicaidx := E.replicaIdx }))

/-- `HandleGapCommitReply`. -/
def handleGapCommitReply (msg : GapCommitReplyMessage) : NOPaxosHandler Unit := do
  let ok ← checkViewNumAndStatus E msg.sessnum msg.view
  when (ok = true) do
    let s ← get
    when (s.status = .gapCommit ∧ amLeader E s ∧ msg.opnum = s.lastOp) do
      let q := s.gapCommitQuorum.add msg.opnum msg.replicaidx msg
      modify fun s => { s with gapCommitQuorum := q }
      whenSome (q.checkForQuorum msg.opnum) fun _ =>
        modify fun s => { s.stop .gapCommit with
          status := .normal
          gapCommitQuorum := s.gapCommitQuorum.clear }

/-! ### State transfer -/

/-- `HandleStateTransferRequest`. -/
def handleStateTransferRequest (remote : Addr) (msg : StateTransferRequestMessage) :
    NOPaxosHandler Unit := do
  let s ← get
  if msg.sessnum ≠ s.sessnum ∨ msg.view ≠ s.view then return
  if msg.opBegin > s.lastOp ∨ msg.opEnd > s.lastOp + 1 then return
  let entries ← ofOption (s.log.dumpTo msg.opBegin msg.opEnd)
  emit (.toAddr remote (.stateTransferReply
    { sessnum := s.sessnum, view := s.view, opBegin := msg.opBegin, opEnd := msg.opEnd
      entries := entries }))

/-- The body of the loop of `HandleStateTransferReply`. -/
def installTransferred (entry : LogEntry) : NOPaxosHandler Unit := do
  let s ← get
  assert (entry.opnum = s.lastOp + 1)
  processNextOperation E entry.request
    { view := entry.view, opnum := entry.opnum
      sessnum := entry.viewstamp.sessnum, msgnum := entry.viewstamp.msgnum } entry.state

/-- `HandleStateTransferReply`. (The loop starts at a negative index when the entries start after the
    next opnum.) -/
def handleStateTransferReply (msg : StateTransferReplyMessage) : NOPaxosHandler Unit := do
  let s ← get
  if msg.sessnum ≠ s.sessnum ∨ msg.view ≠ s.view then return
  if 1 ≤ msg.opEnd ∧ msg.opEnd - 1 ≤ s.lastOp then return
  let first ← ofOption msg.entries.head?
  assert (first.opnum = msg.opBegin)
  let last ← ofOption msg.entries.getLast?
  assert (last.opnum + 1 = msg.opEnd)
  assert (msg.opBegin ≤ s.lastOp + 1)
  forEach (msg.entries.drop (s.lastOp + 1 - msg.opBegin)) (installTransferred E)

/-! ### View changes -/

/-- `HandleViewChangeRequest`. -/
def handleViewChangeRequest (msg : ViewChangeRequestMessage) : NOPaxosHandler Unit := do
  let s ← get
  when (msg.sessnum > s.sessnum ∨ msg.view > s.view) (startViewChange E msg.sessnum msg.view)

/-- `latestNormalSessnum`, `latestNormalView` and `latestOp` of `HandleViewChange`. -/
structure Latest where
  sessnum : Nat
  view : Nat
  op : Nat
  deriving DecidableEq

/-- The body of the first loop of `HandleViewChange`. -/
def Latest.update (l : Latest) (x : ViewChangeMessage) : Latest :=
  let l := if x.lastnormalsessnum > l.sessnum then { l with sessnum := x.lastnormalsessnum, op := 0 }
    else l
  if x.lastnormalview > l.view then { l with view := x.lastnormalview, op := 0 } else l

/-- The first loop of `HandleViewChange`. -/
def findLatest (s : Replica) (msgs : List (Nat × ViewChangeMessage)) : Latest :=
  msgs.foldl (fun l kv => l.update kv.2) ⟨s.lastNormalSessnum, s.lastNormalView, s.lastOp⟩

/-- The second loop of `HandleViewChange`, with `latestOp` and `latestOpReplicaIdx` (`none` is -1). It goes
    over the messages as they are when it starts. -/
def mergeGaps (latest : Latest) : List (Nat × ViewChangeMessage) → Nat → Option Nat →
    NOPaxosHandler (Nat × Option Nat)
  | [], latestOp, idx => pure (latestOp, idx)
  | (_, x) :: rest, latestOp, idx => do
    assert (x.lastnormalsessnum ≤ latest.sessnum)
    assert (x.lastnormalview ≤ latest.view)
    if x.lastnormalsessnum = latest.sessnum ∧ x.lastnormalview = latest.view then
      installCommittedGaps E x.committedgaps
      if x.lastop > latestOp then mergeGaps latest rest x.lastop (some x.replicaidx)
      else mergeGaps latest rest latestOp idx
    else mergeGaps latest rest latestOp idx

/-- `HandleViewChange` once the logs are merged. -/
def startMergedView (latest : Latest) (latestOp : Nat) (idx : Option Nat) : NOPaxosHandler Unit := do
  let s ← get
  assert (∀ lastGap ∈ s.committedGaps.toList.getLast?, lastGap ≤ latestOp)
  modify fun s => { s with
    startViewLastNormalSessnum := latest.sessnum
    startViewLastNormalView := latest.view
    startViewLastOp := latestOp
    startViewCommittedGaps := s.committedGaps }
  match idx with
  | some idx => do
    assert (latestOp > s.lastOp)
    modify fun s => { s with
      stateTransferOpBegin := s.lastOp + 1
      stateTransferOpEnd := latestOp + 1
      stateTransferReplicaIdx := idx
      stateTransferCallback := some .enterView }
    sendStateTransferRequest
  | none => do
    assert (latestOp = s.lastOp)
    enterView E s.sessnum s.view

/-- Was the replica last in normal operation in an older view or session than this? -/
def Replica.isBehind (s : Replica) (sessnum view : Nat) : Prop :=
  s.lastNormalSessnum < sessnum ∨ s.lastNormalView < view

instance (s : Replica) (sessnum view : Nat) : Decidable (s.isBehind sessnum view) :=
  inferInstanceAs (Decidable (_ ∨ _))

/-- `HandleViewChange` with a quorum of messages. -/
def mergeLogs (msgs : StdMap Nat ViewChangeMessage) : NOPaxosHandler Unit := do
  let s ← get
  let latest := findLatest s msgs.toList
  when (s.isBehind latest.sessnum latest.view) do
    rewindLogToOpnum s.lastCommittedOp
    modify fun s => { s with committedGaps := StdSet.empty }
  let (latestOp, idx) ← mergeGaps E latest msgs.toList latest.op none
  startMergedView E latest latestOp idx

/-- `HandleViewChange`. -/
def handleViewChange (remote : Addr) (msg : ViewChangeMessage) : NOPaxosHandler Unit := do
  let s ← get
  when (msg.sessnum > s.sessnum ∨ msg.view > s.view) (startViewChange E msg.sessnum msg.view)
  let s ← get
  if msg.sessnum < s.sessnum ∨ msg.view < s.view then return
  assert (amLeader E s)
  if s.status ≠ .viewChange then
    emit (.toAddr remote (.startView (startViewMessage s)))
  else
    let q := s.viewChangeQuorum.add (msg.sessnum, msg.view) msg.replicaidx msg
    modify fun s => { s with viewChangeQuorum := q }
    whenSome (q.checkForQuorum (msg.sessnum, msg.view)) (mergeLogs E)

/-- `HandleStartView`: remove from the log what is not known to be in the new one. -/
def rewindForStartView (msg : StartViewMessage) : NOPaxosHandler Unit := do
  let s ← get
  if s.isBehind msg.lastnormalsessnum msg.lastnormalview then
    rewindLogToOpnum s.lastCommittedOp
  else
    assert (s.lastNormalSessnum = msg.lastnormalsessnum)
    assert (s.lastNormalView = msg.lastnormalview)
    when (s.lastOp > msg.lastop) (rewindLogToOpnum msg.lastop)
  when (s.lastNormalSessnum = msg.lastnormalsessnum ∧ s.lastNormalView = msg.lastnormalview) <|
    match s.committedGaps.toList.getLast?, msg.committedgaps.getLast? with
    | some lastGap, some last => when (last < lastGap) (rewindLogToOpnum (lastGap - 1))
    | _, _ => pure ()

/-- `HandleStartView`: enter the view, or ask for the missing entries first. -/
def enterStartedView (msg : StartViewMessage) : NOPaxosHandler Unit := do
  let s ← get
  if s.lastOp < msg.lastop then
    modify fun s =>
      { { s with sessnum := msg.sessnum, view := msg.view,
                 status := .viewChange }.clearTimeoutAndQuorums with
        stateTransferOpBegin := s.lastOp + 1
        stateTransferOpEnd := msg.lastop + 1
        stateTransferReplicaIdx := E.config.getLeaderIndex msg.view
        stateTransferCallback := some .enterView }
    sendStateTransferRequest
  else
    enterView E msg.sessnum msg.view

/-- `HandleStartView`. -/
def handleStartView (msg : StartViewMessage) : NOPaxosHandler Unit := do
  let s ← get
  if msg.sessnum < s.sessnum ∨ msg.view < s.view then return
  if msg.sessnum = s.sessnum ∧ msg.view = s.view ∧ s.status ≠ .viewChange then
    sendStartViewReply E
  else
    assert (E.config.getLeaderIndex msg.view ≠ E.replicaIdx)
    rewindForStartView msg
    modify fun s => { s with committedGaps := StdSet.empty }
    installCommittedGaps E msg.committedgaps
    enterStartedView E msg

/-- `HandleStartViewReply`. -/
def handleStartViewReply (msg : StartViewReplyMessage) : NOPaxosHandler Unit := do
  let s ← get
  if msg.sessnum ≠ s.sessnum ∨ msg.view ≠ s.view then return
  assert (s.status = .normal)
  assert (amLeader E s)
  when (s.active .startView = true) do
    let q := s.startViewQuorum.add (msg.sessnum, msg.view) msg.replicaidx msg
    modify fun s => { s with startViewQuorum := q }
    whenSome (q.checkForQuorum (msg.sessnum, msg.view)) fun _ => do
      commitUptoOp E s.startViewLastOp
      modify fun s => { s.stop .startView with startViewQuorum := s.startViewQuorum.clear }

/-! ### Synchronization -/

/-- `HandleSyncPrepare`: acknowledge the sync point, or ask for the missing entries first. -/
def reachSyncPoint (lastop view : Nat) : NOPaxosHandler Unit := do
  let s ← get
  if s.lastOp < lastop then
    modify fun s => { s with
      stateTransferOpBegin := s.lastOp + 1
      stateTransferOpEnd := lastop + 1
      stateTransferReplicaIdx := E.config.getLeaderIndex view
      stateTransferCallback := some (.processSyncPrepare lastop) }
    when (lastop - s.lastOp ≤ maxSyncTransferOps) sendStateTransferRequest
  else
    processSyncPrepare E lastop

/-- `HandleSyncPrepare`. -/
def handleSyncPrepare (msg : SyncPrepareMessage) : NOPaxosHandler Unit := do
  let ok ← checkViewNumAndStatus E msg.sessnum msg.view
  when (ok = true) do
    modify (·.start .leaderSyncHeard)
    let s ← get
    when (¬ s.lastCommittedOp ≥ msg.lastop) do
      assert (¬ amLeader E s)
      modify fun s => { s with
        receivedSyncPreparePoints := s.receivedSyncPreparePoints.insert msg.lastop }
      installCommittedGaps E msg.committedgaps
      reachSyncPoint E msg.lastop msg.view

/-- `HandleSyncPrepareReply`. -/
def handleSyncPrepareReply (msg : SyncPrepareReplyMessage) : NOPaxosHandler Unit := do
  let ok ← checkViewNumAndStatus E msg.sessnum msg.view
  when (ok = true) do
    let s ← get
    assert (amLeader E s)
    when (¬ s.lastCommittedOp ≥ msg.syncpoint ∧ msg.syncpoint = s.leaderLastSyncPreparePoint) do
      let q := s.syncPrepareQuorum.add msg.syncpoint msg.replicaidx msg
      modify fun s => { s with syncPrepareQuorum := q }
      whenSome (q.checkForQuorum msg.syncpoint) fun _ => commitUptoOp E msg.syncpoint

/-- `HandleSyncCommit`. -/
def handleSyncCommit (msg : SyncCommitMessage) : NOPaxosHandler Unit := do
  let ok ← checkViewNumAndStatus E msg.sessnum msg.view
  when (ok = true) do
    let s ← get
    assert (¬ amLeader E s)
    when (¬ s.lastCommittedOp ≥ msg.syncpoint) do
      modify fun s => { s with
        receivedSyncCommitPoints := s.receivedSyncCommitPoints.insert msg.syncpoint }
      if msg.syncpoint ∈ s.receivedSyncPreparePoints.toList then
        when (s.lastOp ≥ msg.syncpoint) do
          commitUptoOp E msg.syncpoint
          modify fun s => { s with
            receivedSyncPreparePoints := s.receivedSyncPreparePoints.erase msg.syncpoint
            receivedSyncCommitPoints := s.receivedSyncCommitPoints.erase msg.syncpoint }
      else
        emit (.toReplica (E.config.getLeaderIndex s.view) (.syncPrepareRequest
          { sessnum := s.sessnum, view := s.view }))

/-- `HandleSyncPrepareRequest`. -/
def handleSyncPrepareRequest (remote : Addr) (msg : SyncPrepareRequestMessage) :
    NOPaxosHandler Unit := do
  let ok ← checkViewNumAndStatus E msg.sessnum msg.view
  when (ok = true) do
    let s ← get
    assert (amLeader E s)
    emit (.toAddr remote (.syncPrepare
      { sessnum := s.sessnum, view := s.view, lastop := s.leaderLastSyncPreparePoint
        committedgaps := s.leaderLastSyncCommittedGaps.toList }))
    when (s.lastCommittedOp ≥ s.leaderLastSyncPreparePoint) <|
      emit (.toAddr remote (.syncCommit
        { sessnum := s.sessnum, view := s.view, syncpoint := s.leaderLastSyncPreparePoint }))

/-! ### Client requests -/

/-- `TryProcessClientRequest`: is the request done with? -/
def tryProcessClientRequest (msg : RequestMessage) : NOPaxosHandler Bool := do
  let s ← get
  if s.status ≠ .normal then
    return false
  else if msg.sessnum < s.sessnum then
    return true
  else if msg.sessnum > s.sessnum then
    startViewChange E msg.sessnum s.view
    return false
  else if msg.msgnum < s.nextMsgnum then
    return true
  else if msg.msgnum > s.nextMsgnum then
    when (¬ s.active .gapRequest = true ∧ ¬ s.active .gapCommit = true) (sendGapRequest E)
    return false
  else
    processNextOperation E msg.req
      { view := s.view, opnum := s.lastOp + 1, sessnum := msg.sessnum, msgnum := msg.msgnum }
      .received
    return true

/-- `AddPendingRequest`. -/
def Replica.addPendingRequest (s : Replica) (msg : RequestMessage) : Replica :=
  if msg.sessnum ≥ s.sessnum ∧ msg.msgnum ≥ s.nextMsgnum then
    { s with pendingRequests := s.pendingRequests ++ [msg], pendingRequestsSorted := false }
  else s

/-- `HandleClientRequest`. -/
def handleClientRequest (msg : RequestMessage) : NOPaxosHandler Unit := do
  assert (¬ (msg.sessnum = 0 ∧ msg.msgnum = 0))
  let done ← tryProcessClientRequest E msg
  when (done = false) (modify (·.addPendingRequest msg))

/-- `HandleUnloggedRequest`. -/
def handleUnloggedRequest (remote : Addr) (op : String) : NOPaxosHandler Unit := do
  let s ← get
  modify fun s => { s with upcalls := s.upcalls ++ [.unlogged op] }
  emit (.toClient remote (.unloggedReply (E.app.unloggedUpcall s.upcalls op)))

/-- Not after, in the order of `ComparePendingRequests`. -/
def pendingBefore (first second : RequestMessage) : Prop :=
  first.sessnum < second.sessnum ∨ first.sessnum = second.sessnum ∧ first.msgnum ≤ second.msgnum

instance : DecidableRel pendingBefore := fun _ _ => inferInstanceAs (Decidable (_ ∨ _ ∧ _))

/-- The loop of `ProcessPendingRequests`, over what is in the list. -/
def processPending : List RequestMessage → NOPaxosHandler Unit
  | [] => pure ()
  | request :: rest => do
    let done ← tryProcessClientRequest E request
    when (done = true) do
      modify fun s => { s with pendingRequests := rest }
      processPending rest

/-- `ProcessPendingRequests`. -/
def processPendingRequests : NOPaxosHandler Unit := do
  let s ← get
  when (s.status = .normal) do
    let sorted := if s.pendingRequestsSorted then s.pendingRequests
      else s.pendingRequests.insertionSort pendingBefore
    when (s.pendingRequests ≠ []) do
      modify fun s => { s with pendingRequests := sorted, pendingRequestsSorted := true }
      processPending E sorted

/-! ### The group -/

/-- The handler of a message. -/
def handleMessage (remote : Addr) : ToReplicaMessage → NOPaxosHandler Unit
  | .request m => handleClientRequest E m
  | .unloggedRequest op => handleUnloggedRequest E remote op
  | .gapRequest m => handleGapRequest E remote m
  | .gapReply m => handleGapReply E m
  | .stateTransferRequest m => handleStateTransferRequest remote m
  | .stateTransferReply m => handleStateTransferReply E m
  | .gapCommit m => handleGapCommit E remote m
  | .gapCommitReply m => handleGapCommitReply E m
  | .viewChangeRequest m => handleViewChangeRequest E m
  | .viewChange m => handleViewChange E remote m
  | .startView m => handleStartView E m
  | .startViewReply m => handleStartViewReply E m
  | .syncPrepareRequest m => handleSyncPrepareRequest E remote m
  | .syncPrepare m => handleSyncPrepare E m
  | .syncPrepareReply m => handleSyncPrepareReply E m
  | .syncCommit m => handleSyncCommit E m

/-- `ReceiveMessage`. -/
def receiveMessage (remote : Addr) (m : ToReplicaMessage) : NOPaxosHandler Unit := do
  handleMessage E remote m
  processPendingRequests E

/-- The callback of a timer. -/
def timeout : Timer → NOPaxosHandler Unit
  | .gapRequest => do
    let s ← get
    if amLeader E s then startGapAgreement E else sendGapRequest E
  | .gapCommit => sendGapCommit E
  | .viewChange => sendViewChange E
  | .stateTransfer => sendStateTransferRequest
  | .startView => sendStartView E
  | .sync => sendSyncPrepare E
  | .leaderSyncHeard => do
    let s ← get
    startViewChange E s.sessnum (s.view + 1)

/-- The state the constructor sets up. -/
def Replica.initial : Replica where
  status := .normal
  log := Log.empty
  view := 0
  sessnum := 0
  lastOp := 0
  nextMsgnum := 1
  lastNormalView := 0
  lastNormalSessnum := 0
  lastCommittedOp := 0
  lastExecutedOp := 0
  clientTable _ := none
  pendingRequests := []
  pendingRequestsSorted := false
  gapReplyQuorum := QuorumSet.new (E.config.n - 1)
  gapCommitQuorum := QuorumSet.new (E.config.quorumSize - 1)
  viewChangeQuorum := QuorumSet.new (E.config.quorumSize - 1)
  startViewQuorum := QuorumSet.new (E.config.quorumSize - 1)
  syncPrepareQuorum := QuorumSet.new (E.config.quorumSize - 1)
  committedGaps := StdSet.empty
  active t := if E.config.getLeaderIndex 0 = E.replicaIdx then decide (t = .sync)
    else decide (t = .leaderSyncHeard)
  stateTransferOpBegin := 0
  stateTransferOpEnd := 0
  stateTransferReplicaIdx := 0
  stateTransferCallback := none
  startViewLastNormalSessnum := 0
  startViewLastNormalView := 0
  startViewLastOp := 0
  startViewCommittedGaps := StdSet.empty
  leaderLastSyncPreparePoint := 0
  leaderLastSyncCommittedGaps := StdSet.empty
  receivedSyncPreparePoints := StdSet.empty
  receivedSyncCommitPoints := StdSet.empty
  upcalls := []

/-- A group: its configuration, the application of each replica, the address book, and the request that
    each sequencer (by its session number) stamps with each message number. -/
structure Group where
  config : Configuration
  app : Nat → App
  lookupAddress : String → Addr
  sequenced : Nat → Nat → Request

/-- The environment of replica `r`. -/
def Group.env (G : Group) (r : Nat) : Env :=
  { config := G.config, replicaIdx := r, app := G.app r, lookupAddress := G.lookupAddress }

/-- What reaches a replica from outside of the group: the message after the first `i` that the
    sequencer of a session stamps, or an unlogged request. -/
inductive Ask where
  | request (sessnum i : Nat)
  | unlogged (op : String)
  deriving DecidableEq

/-- The message that brings it. -/
def Group.ask (G : Group) (_ : Nat) : Ask → ToReplicaMessage
  | .request sessnum i =>
    .request { sessnum := sessnum, msgnum := i + 1, req := G.sequenced sessnum (i + 1) }
  | .unlogged op => .unloggedRequest op

/-- The protocol a group runs. -/
def Group.protocol (G : Group) : Net.Protocol Replica ToReplicaMessage ToClientMessage Timer Ask where
  n := G.config.n
  init r := Replica.initial (G.env r)
  receive r := receiveMessage (G.env r)
  timeout r := NOPaxos.timeout (G.env r)
  active s t := s.active t
  ask := G.ask

abbrev Sys := Net.Sys Replica ToReplicaMessage

abbrev Event := Net.Event Timer Ask

/-- The runs of a group. -/
abbrev system (G : Group) : System Sys Event := Net.system G.protocol

end Dsnet.NOPaxos
