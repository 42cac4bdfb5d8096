import Dsnet.Lib.Handler
import Dsnet.Common.Quorum
import Dsnet.VR.Message

/-! `replication/vr/replica.{h,cc}`: the Viewstamped Replication replica, handler by handler.

    A handler is run by one process on one message; `E` holds what that process is constructed
    with. Timers are modelled by whether they are active; logging and latency measurement are left
    out. `RPanic` and a failed `ASSERT` both end the process. -/

namespace Dsnet.VR
open Handler

/-- `ClientTableEntry`; a cleared reply is `none`. -/
structure ClientTableEntry where
  lastReqId : Nat := 0
  replied : Bool := false
  reply : Option ReplyMessage := none
  deriving DecidableEq, Repr

/-- The arguments of the constructor. -/
structure Env where
  config : Configuration
  replicaIdx : Nat
  batchSize : Nat
  app : App

/-- The timers of a replica. -/
inductive Timer where
  | viewChange | nullCommit | stateTransfer | resendPrepare | closeBatch | recovery
  deriving DecidableEq, Repr

/-- The members of `VRReplica`. -/
structure Replica where
  status : ReplicaStatus
  view : Nat
  lastCommitted : Nat
  lastOp : Nat
  lastRequestStateTransferView : Nat
  lastRequestStateTransferOpnum : Nat
  recoveryNonce : Nat
  pendingPrepares : List (Addr × PrepareMessage)
  lastPrepare : Option PrepareMessage
  lastBatchEnd : Nat
  batchComplete : Bool
  log : Log
  clientAddresses : Nat → Option Addr
  clientTable : Nat → Option ClientTableEntry
  prepareOKQuorum : QuorumSet (Nat × Nat) PrepareOKMessage
  startViewChangeQuorum : QuorumSet Nat StartViewChangeMessage
  doViewChangeQuorum : QuorumSet Nat DoViewChangeMessage
  recoveryResponseQuorum : QuorumSet Nat RecoveryResponseMessage
  active : Timer → Bool
  upcalls : List Upcall

/-- What a `VRReplica` handler computes. -/
abbrev VRHandler := Handler Replica Output

namespace Replica

/-- `timer->Reset()` and `timer->Start()`. -/
def start (s : Replica) (t : Timer) : Replica :=
  { s with active := fun u => if u = t then true else s.active u }

/-- `timer->Stop()`. -/
def stop (s : Replica) (t : Timer) : Replica :=
  { s with active := fun u => if u = t then false else s.active u }

/-- `clientTable[clientid]`, which creates the entry when it is missing. -/
def clientEntry (s : Replica) (clientid : Nat) : ClientTableEntry :=
  (s.clientTable clientid).getD {}

def setClientEntry (s : Replica) (clientid : Nat) (e : ClientTableEntry) : Replica :=
  { s with clientTable := fun c => if c = clientid then some e else s.clientTable c }

/-- The requests executed so far, with their opnums. -/
def executed (s : Replica) : List (Nat × Request) := executions s.upcalls

end Replica

variable (E : Env)

/-- The state the constructor sets up, before it starts timers or recovery. -/
def Replica.construct : Replica where
  status := .normal
  view := 0
  lastCommitted := 0
  lastOp := 0
  lastRequestStateTransferView := 0
  lastRequestStateTransferOpnum := 0
  recoveryNonce := 0
  pendingPrepares := []
  lastPrepare := none
  lastBatchEnd := 0
  batchComplete := true
  log := Log.empty
  clientAddresses _ := none
  clientTable _ := none
  prepareOKQuorum := QuorumSet.new (E.config.quorumSize - 1)
  startViewChangeQuorum := QuorumSet.new (E.config.quorumSize - 1)
  doViewChangeQuorum := QuorumSet.new (E.config.quorumSize - 1)
  recoveryResponseQuorum := QuorumSet.new E.config.quorumSize
  active t := decide (t = .stateTransfer)
  upcalls := []

/-- `AmLeader`. -/
def amLeader (s : Replica) : Prop := E.config.getLeaderIndex s.view = E.replicaIdx

instance (s : Replica) : Decidable (amLeader E s) := inferInstanceAs (Decidable (_ = _))

/-! ### Committing -/

/-- The client table entry after the reply to `req` has been computed. -/
def recordReply (s : Replica) (req : Request) (m : ReplyMessage) : Replica :=
  let cte := s.clientEntry req.clientid
  s.setClientEntry req.clientid
    (if cte.lastReqId ≤ req.clientreqid then
      { lastReqId := req.clientreqid, replied := true, reply := some m }
    else cte)

/-- The body of the loop of `CommitUpTo`. -/
def commitNext : VRHandler Unit := do
  modify fun s => { s with lastCommitted := s.lastCommitted + 1 }
  let s ← get
  let entry ← ofOption (s.log.find s.lastCommitted)
  let m : ReplyMessage :=
    { view := entry.view
      opnum := entry.opnum
      reply := E.app.replicaUpcall s.upcalls s.lastCommitted entry.request.op (amLeader E s)
      clientreqid := entry.request.clientreqid }
  modify fun s => { s with
    upcalls := s.upcalls ++ [.execute s.lastCommitted entry.request]
    log := s.log.setStatus s.lastCommitted .committed }
  modify (recordReply · entry.request m)
  whenSome (s.clientAddresses entry.request.clientid) fun a => emit (.toClient a (.reply m))

/-- `CommitUpTo`: the loop runs while `lastCommitted < upto`. -/
def commitUpTo (upto : Nat) : VRHandler Unit := do
  let s ← get
  iterate (upto - s.lastCommitted) (commitNext E)

/-- `UpdateClientTable`. -/
def updateClientTable (req : Request) : VRHandler Unit := do
  let s ← get
  let entry := s.clientEntry req.clientid
  assert (entry.lastReqId ≤ req.clientreqid)
  modify (·.setClientEntry req.clientid
    (if entry.lastReqId = req.clientreqid then entry else { lastReqId := req.clientreqid }))

/-- The body of the loop of `SendPrepareOKs`. -/
def sendPrepareOK (i : Nat) : VRHandler Unit := do
  let s ← get
  if i ≤ s.lastCommitted then return
  let entry ← ofOption (s.log.find i)
  assert (entry.state = .prepared)
  updateClientTable entry.request
  emit (.toReplica (E.config.getLeaderIndex s.view)
    (.prepareOK { view := s.view, opnum := i, replicaidx := E.replicaIdx }))

/-- `SendPrepareOKs`. -/
def sendPrepareOKs (oldLastOp : Nat) : VRHandler Unit := do
  let s ← get
  forEach (List.range' oldLastOp (s.lastOp + 1 - oldLastOp)) (sendPrepareOK E)

/-- `SendRecoveryMessages`. -/
def sendRecoveryMessages : VRHandler Unit := do
  let s ← get
  emit (.toAll (.recovery { replicaidx := E.replicaIdx, nonce := s.recoveryNonce }))

/-- `RequestStateTransfer`. -/
def requestStateTransfer : VRHandler Unit := do
  let s ← get
  if s.lastRequestStateTransferOpnum ≠ 0 ∧ s.lastRequestStateTransferView = s.view ∧
      s.lastRequestStateTransferOpnum = s.lastCommitted then return
  modify fun s => { s with
    lastRequestStateTransferView := s.view
    lastRequestStateTransferOpnum := s.lastCommitted }
  emit (.toAll (.requestStateTransfer { view := s.view, opnum := s.lastCommitted }))

/-! ### Views -/

/-- The timers after `EnterView`. -/
def enterViewTimers (s : Replica) : Replica :=
  if amLeader E s then (s.stop .viewChange).start .nullCommit
  else (((s.start .viewChange).stop .nullCommit).stop .resendPrepare).stop .closeBatch

/-- `EnterView`. -/
def enterView (newview : Nat) : VRHandler Unit := do
  modify fun s => { s with
    view := newview
    status := .normal
    lastBatchEnd := s.lastOp
    batchComplete := true }
  modify (·.stop .recovery)
  modify (enterViewTimers E)
  modify fun s => { s with
    prepareOKQuorum := s.prepareOKQuorum.clear
    startViewChangeQuorum := s.startViewChangeQuorum.clear
    doViewChangeQuorum := s.doViewChangeQuorum.clear
    recoveryResponseQuorum := s.recoveryResponseQuorum.clear }

/-- `StartViewChange`. -/
def startViewChange (newview : Nat) : VRHandler Unit := do
  modify fun s => { s with view := newview, status := .viewChange }
  modify fun s => (((s.start .viewChange).stop .nullCommit).stop .resendPrepare).stop .closeBatch
  let s ← get
  emit (.toAll (.startViewChange
    { view := newview, replicaidx := E.replicaIdx, lastcommitted := s.lastCommitted }))

/-- `SendNullCommit`. -/
def sendNullCommit : VRHandler Unit := do
  let s ← get
  assert (amLeader E s)
  emit (.toAll (.commit { view := s.view, opnum := s.lastCommitted }))

/-- `ResendPrepare`. -/
def resendPrepare : VRHandler Unit := do
  let s ← get
  assert (amLeader E s)
  if s.lastOp = s.lastCommitted then return
  emit (.toAll (match s.lastPrepare with
    | some p => .prepare p
    | none => .notSet))

/-- The requests of a batch, each logged in the current view. -/
def batchRequests (view : Nat) (log : Log) : List Nat → Option (List Request)
  | [] => some []
  | i :: is =>
    match log.find i with
    | none => none
    | some e =>
      if e.view = view ∧ e.opnum = i then (batchRequests view log is).map (e.request :: ·)
      else none

/-- `CloseBatch`. -/
def closeBatch : VRHandler Unit := do
  let s ← get
  assert (amLeader E s)
  assert (s.lastBatchEnd < s.lastOp)
  let batchStart := s.lastBatchEnd + 1
  let rs ← ofOption (batchRequests s.view s.log
    (List.range' batchStart (s.lastOp + 1 - batchStart)))
  let p : PrepareMessage :=
    { view := s.view, opnum := s.lastOp, batchstart := batchStart, request := rs }
  modify fun s => { s with lastPrepare := some p }
  emit (.toAll (.prepare p))
  modify fun s => { s with lastBatchEnd := s.lastOp, batchComplete := false }
  modify fun s => (s.start .resendPrepare).stop .closeBatch

/-! ### Normal operation -/

/-- How `HandleRequest` finds the request in the client table. -/
inductive Duplicate where
  | stale | replied (reply : Option ReplyMessage) | unreplied | fresh
  deriving DecidableEq

/-- The check of `HandleRequest` against the client table. -/
def checkDuplicate (s : Replica) (req : Request) : Duplicate :=
  match s.clientTable req.clientid with
  | none => .fresh
  | some entry =>
    if req.clientreqid < entry.lastReqId then .stale
    else if req.clientreqid = entry.lastReqId then
      if entry.replied then .replied entry.reply else .unreplied
    else .fresh

/-- `HandleRequest` from the leader upcall on. -/
def processRequest (remote : Addr) (req : Request) : VRHandler Unit := do
  let s ← get
  let (replicate, res) := E.app.leaderUpcall s.upcalls s.lastCommitted req.op
  modify fun s => { s with upcalls := s.upcalls ++ [.leader s.lastCommitted req.op] }
  if ¬ replicate then
    let m : ReplyMessage :=
      { view := 0, opnum := 0, reply := res, clientreqid := req.clientreqid }
    modify fun s => s.setClientEntry req.clientid
      { s.clientEntry req.clientid with replied := true, reply := some m }
    emit (.toClient remote (.reply m))
  else
    let request : Request :=
      { op := res, clientid := req.clientid, clientreqid := req.clientreqid }
    modify fun s => { s with lastOp := s.lastOp + 1 }
    let s ← get
    let log ← ofOption (s.log.append
      { viewstamp := { view := s.view, opnum := s.lastOp }, state := .prepared
        request := request })
    modify fun s => { s with log := log }
    -- `lastOp - lastBatchEnd + 1` is unsigned: below zero it is a huge number
    if s.batchComplete ∨ s.lastOp + 1 < s.lastBatchEnd ∨
        s.lastOp + 1 - s.lastBatchEnd > E.batchSize then
      closeBatch E
    else
      modify (·.start .closeBatch)
    modify (·.start .nullCommit)

/-- `HandleRequest`. -/
def handleRequest (remote : Addr) (req : Request) : VRHandler Unit := do
  let s ← get
  if s.status ≠ .normal then return
  if ¬ amLeader E s then return
  modify fun s => { s with
    clientAddresses := fun c => if c = req.clientid then some remote else s.clientAddresses c }
  match checkDuplicate s req with
  | .stale => pure ()
  | .replied reply => whenSome reply fun m => emit (.toClient remote (.reply m))
  | .unreplied => pure ()
  | .fresh => do
    updateClientTable req
    processRequest E remote req

/-- `HandleUnloggedRequest`. -/
def handleUnloggedRequest (remote : Addr) (op : String) : VRHandler Unit := do
  let s ← get
  if s.status ≠ .normal then return
  modify fun s => { s with upcalls := s.upcalls ++ [.unlogged op] }
  emit (.toClient remote (.unloggedReply (E.app.unloggedUpcall s.upcalls op)))

/-- One request of a Prepare message, with its opnum. -/
def appendPrepared (view : Nat) (op : Nat) (req : Request) : VRHandler Unit := do
  let s ← get
  if op ≤ s.lastOp then return
  modify fun s => { s with lastOp := s.lastOp + 1 }
  let log ← ofOption (s.log.append
    { viewstamp := { view := view, opnum := op }, state := .prepared, request := req })
  modify fun s => { s with log := log }
  updateClientTable req

/-- `HandlePrepare`. -/
def handlePrepare (remote : Addr) (msg : PrepareMessage) : VRHandler Unit := do
  let s ← get
  if s.status ≠ .normal then return
  if msg.view < s.view then return
  if msg.view > s.view then
    requestStateTransfer
    modify fun s => { s with pendingPrepares := s.pendingPrepares ++ [(remote, msg)] }
  else
    assert (¬ amLeader E s)
    assert (msg.batchstart ≤ msg.opnum)
    assert (msg.opnum - msg.batchstart + 1 = msg.request.length)
    modify (·.start .viewChange)
    if msg.opnum ≤ s.lastOp then
      emit (.toReplica (E.config.getLeaderIndex s.view)
        (.prepareOK { view := msg.view, opnum := msg.opnum, replicaidx := E.replicaIdx }))
    else if msg.batchstart > s.lastOp + 1 then
      requestStateTransfer
      modify fun s => { s with pendingPrepares := s.pendingPrepares ++ [(remote, msg)] }
    else
      forEach (msg.request.zipIdx msg.batchstart) fun (req, op) =>
        appendPrepared msg.view op req
      assert (msg.batchstart + msg.request.length = msg.opnum + 1)
      emit (.toReplica (E.config.getLeaderIndex s.view)
        (.prepareOK { view := msg.view, opnum := msg.opnum, replicaidx := E.replicaIdx }))

/-- `HandlePrepareOK`. -/
def handlePrepareOK (msg : PrepareOKMessage) : VRHandler Unit := do
  let s ← get
  if s.status ≠ .normal then return
  if msg.view < s.view then return
  if msg.view > s.view then
    requestStateTransfer
  else if amLeader E s then
    let q := s.prepareOKQuorum.add (msg.view, msg.opnum) msg.replicaidx msg
    modify fun s => { s with prepareOKQuorum := q }
    whenSome (q.checkForQuorum (msg.view, msg.opnum)) fun msgs => do
      commitUpTo E msg.opnum
      if msgs.size ≥ E.config.quorumSize then return
      let s ← get
      emit (.toAll (.commit { view := s.view, opnum := s.lastCommitted }))
      modify (·.start .nullCommit)
      when (s.lastBatchEnd = msg.opnum) do
        modify fun s => { s with batchComplete := true }
        when (s.lastOp > s.lastBatchEnd) (closeBatch E)

/-- `HandleCommit`. -/
def handleCommit (msg : CommitMessage) : VRHandler Unit := do
  let s ← get
  if s.status ≠ .normal then return
  if msg.view < s.view then return
  if msg.view > s.view then
    requestStateTransfer
  else
    assert (¬ amLeader E s)
    modify (·.start .viewChange)
    if msg.opnum ≤ s.lastCommitted then return
    if msg.opnum > s.lastOp then requestStateTransfer
    else commitUpTo E msg.opnum

/-! ### State transfer -/

/-- `HandleRequestStateTransfer`. -/
def handleRequestStateTransfer (remote : Addr) (msg : RequestStateTransferMessage) :
    VRHandler Unit := do
  let s ← get
  if s.status ≠ .normal then return
  if msg.view > s.view then
    requestStateTransfer
  else
    emit (.toAddr remote (.stateTransfer
      { view := s.view, opnum := s.lastCommitted, entries := s.log.dump (msg.opnum + 1) }))

/-- The loop of `HandleStateTransfer` that installs the entries; it carries `oldLastOp`. -/
def installTransferred : List LogEntry → Nat → VRHandler Nat
  | [], oldLastOp => pure oldLastOp
  | newEntry :: rest, oldLastOp => do
    let s ← get
    if newEntry.opnum ≤ s.lastCommitted then
      installTransferred rest oldLastOp
    else if newEntry.opnum ≤ s.lastOp then
      let entry ← ofOption (s.log.find newEntry.opnum)
      assert (entry.view ≤ newEntry.view)
      if entry.view = newEntry.view then
        assert (entry.state = .prepared)
        installTransferred rest oldLastOp
      else
        assert (entry.state ≠ .committed)
        let log ← ofOption (s.log.removeAfter newEntry.opnum)
        modify fun s => { s with log := log, lastOp := newEntry.opnum }
        let log ← ofOption (log.append (Log.installed newEntry))
        modify fun s => { s with log := log }
        installTransferred rest newEntry.opnum
    else
      assert (newEntry.opnum = s.lastOp + 1)
      modify fun s => { s with lastOp := s.lastOp + 1 }
      let log ← ofOption (s.log.append (Log.installed newEntry))
      modify fun s => { s with log := log }
      installTransferred rest oldLastOp

/-- `HandleStateTransfer` after the entries are installed: commit, acknowledge what is left, and
    process the pending Prepares. -/
def resumeTransferred (opnum oldLastOp : Nat) : VRHandler Unit := do
  let s ← get
  assert (opnum ≤ s.lastOp)
  commitUpTo E opnum
  sendPrepareOKs E oldLastOp
  let s ← get
  modify fun s => { s with pendingPrepares := [] }
  forEach s.pendingPrepares fun (remote, m) => handlePrepare E remote m

/-- `HandleStateTransfer`. -/
def handleStateTransfer (msg : StateTransferMessage) : VRHandler Unit := do
  let s ← get
  if msg.view < s.view then return
  let oldLastOp ← installTransferred msg.entries s.lastOp
  when (msg.view > s.view) (enterView E msg.view)
  resumeTransferred E msg.opnum oldLastOp

/-! ### View changes -/

/-- `HandleStartViewChange`. -/
def handleStartViewChange (msg : StartViewChangeMessage) : VRHandler Unit := do
  let s ← get
  if msg.view < s.view then return
  if msg.view = s.view ∧ s.status ≠ .viewChange then return
  when (s.status ≠ .viewChange ∨ msg.view > s.view) (startViewChange E msg.view)
  let s ← get
  assert (msg.view = s.view)
  let q := s.startViewChangeQuorum.add msg.view msg.replicaidx msg
  modify fun s => { s with startViewChangeQuorum := q }
  whenSome (q.checkForQuorum msg.view) fun msgs => do
    let leader := E.config.getLeaderIndex s.view
    when (leader ≠ E.replicaIdx) do
      let minCommitted ← ofOption (minElement StartViewChangeMessage.lastcommitted msgs)
      emit (.toReplica leader (.doViewChange
        { view := s.view
          lastnormalview := s.log.lastViewstamp.view
          lastop := s.lastOp
          lastcommitted := s.lastCommitted
          replicaidx := E.replicaIdx
          entries := s.log.dump (min minCommitted s.lastCommitted) }))

/-- The loop of `HandleDoViewChange` that looks for the latest viewstamp: its view, its opnum, and
    the message it came from, if it is not the replica's own. (`latestMsg` is left pointing at the
    loop's copy of that message; what it is read for is read from the message here.) -/
def pickLatest : Nat × Nat × Option DoViewChangeMessage → List (Nat × DoViewChangeMessage) →
    Nat × Nat × Option DoViewChangeMessage
  | best, [] => best
  | (latestView, latestOp, latestMsg), (_, x) :: rest =>
    if x.lastnormalview > latestView ∨
        (x.lastnormalview = latestView ∧ x.lastop > latestOp) then
      pickLatest (x.lastnormalview, x.lastop, some x) rest
    else pickLatest (latestView, latestOp, latestMsg) rest

/-- The part of `HandleDoViewChange` that installs the log of the latest message. -/
def installLatest (msg latest : DoViewChangeMessage) : VRHandler Unit := do
  let s ← get
  match latest.entries with
  | [] => do
    assert (s.lastCommitted = msg.lastcommitted)
    assert (msg.lastop = msg.lastcommitted)
  | e :: es => do
    assert (¬ e.opnum > s.lastCommitted + 1)
    let log ← ofOption (s.log.removeAfter (latest.lastop + 1))
    let log ← ofOption (log.install (e :: es))
    modify fun s => { s with log := log }

/-- `HandleDoViewChange` from `EnterView` on: commit what the latest message has committed, and send
    the log from `minCommitted` on. -/
def announceView (view latestOp minCommitted : Nat) (latestMsg : Option DoViewChangeMessage) :
    VRHandler Unit := do
  enterView E view
  let s ← get
  assert (amLeader E s)
  modify fun s => { s with lastOp := latestOp }
  whenSome latestMsg fun m => commitUpTo E m.lastcommitted
  let s ← get
  emit (.toAll (.startView
    { view := s.view
      lastop := s.lastOp
      lastcommitted := s.lastCommitted
      entries := s.log.dump minCommitted }))

/-- `HandleDoViewChange` with a quorum of messages. `wild` is what reading through the end iterator
    of an empty map gives, when the process survives it. -/
def completeViewChange (wild : Option Nat) (msg : DoViewChangeMessage)
    (msgs : StdMap Nat DoViewChangeMessage) : VRHandler Unit := do
  let s ← get
  let vs := s.log.lastViewstamp
  let (_, latestOp, latestMsg) := pickLatest (vs.view, vs.opnum, none) msgs.toList
  whenSome latestMsg (installLatest msg)
  let minCommittedSVC ← ofOption ((minElement StartViewChangeMessage.lastcommitted
    (s.startViewChangeQuorum.messages s.view)).or wild)
  let minCommittedDVC ← ofOption ((minElement DoViewChangeMessage.lastcommitted msgs).or wild)
  let minCommitted := min (min minCommittedSVC minCommittedDVC) s.lastCommitted
  announceView E msg.view latestOp minCommitted latestMsg

/-- `HandleDoViewChange`. -/
def handleDoViewChange (wild : Option Nat) (msg : DoViewChangeMessage) : VRHandler Unit := do
  let s ← get
  if msg.view < s.view then return
  if msg.view = s.view ∧ s.status ≠ .viewChange then return
  when (s.status ≠ .viewChange ∨ msg.view > s.view) (startViewChange E msg.view)
  assert (E.config.getLeaderIndex msg.view = E.replicaIdx)
  let s ← get
  let q := s.doViewChangeQuorum.add msg.view msg.replicaidx msg
  modify fun s => { s with doViewChangeQuorum := q }
  whenSome (q.checkForQuorum msg.view) (completeViewChange E wild msg)

/-- The part of `HandleStartView` that installs the log of the message. -/
def installStartView (msg : StartViewMessage) : VRHandler Unit := do
  let s ← get
  match msg.entries with
  | [] => do
    assert (msg.lastcommitted = s.lastCommitted)
    assert (msg.lastop = msg.lastcommitted)
  | e :: es => do
    assert (¬ e.opnum > s.lastCommitted + 1)
    let log ← ofOption (s.log.removeAfter (msg.lastop + 1))
    let log ← ofOption (log.install (e :: es))
    modify fun s => { s with log := log }

/-- `HandleStartView`. -/
def handleStartView (msg : StartViewMessage) : VRHandler Unit := do
  let s ← get
  if msg.view < s.view then return
  if msg.view = s.view ∧ s.status ≠ .viewChange then return
  assert (E.config.getLeaderIndex msg.view ≠ E.replicaIdx)
  installStartView msg
  enterView E msg.view
  modify fun s => { s with lastOp := msg.lastop }
  let s' ← get
  assert (¬ amLeader E s')
  commitUpTo E msg.lastcommitted
  sendPrepareOKs E s.lastOp

/-! ### Recovery -/

/-- `HandleRecovery`. -/
def handleRecovery (remote : Addr) (msg : RecoveryMessage) : VRHandler Unit := do
  let s ← get
  if s.status ≠ .normal then return
  emit (.toAddr remote (.recoveryResponse
    { view := s.view
      nonce := msg.nonce
      entries := if amLeader E s then s.log.dump 0 else []
      lastop := if amLeader E s then s.lastOp else 0
      lastcommitted := if amLeader E s then s.lastCommitted else 0
      replicaidx := E.replicaIdx }))

/-- The highest view among the responses. -/
def highestView (msgs : StdMap Nat RecoveryResponseMessage) : Nat :=
  msgs.toList.foldl (fun v kv => max v kv.2.view) 0

/-- `HandleRecoveryResponse` once the leader's response is among a quorum of them. -/
def installRecovery (m : RecoveryResponseMessage) : VRHandler Unit := do
  let s ← get
  let log ← ofOption (s.log.install m.entries)
  modify fun s => { s with log := log }
  enterView E m.view
  modify fun s => { s with lastOp := m.lastop }
  commitUpTo E m.lastcommitted

/-- `HandleRecoveryResponse`. -/
def handleRecoveryResponse (msg : RecoveryResponseMessage) : VRHandler Unit := do
  let s ← get
  if s.status ≠ .recovering then return
  if msg.nonce ≠ s.recoveryNonce then return
  let q := s.recoveryResponseQuorum.add msg.nonce msg.replicaidx msg
  modify fun s => { s with recoveryResponseQuorum := q }
  whenSome (q.checkForQuorum msg.nonce) fun msgs => do
    let leader := E.config.getLeaderIndex (highestView msgs)
    assert (leader ≠ E.replicaIdx)
    whenSome (msgs.find? leader) fun m =>
      when (m.view = highestView msgs) (installRecovery E m)

/-! ### Dispatch -/

/-- `ReceiveMessage`, of a message from `remote`. -/
def receiveMessage (wild : Option Nat) (remote : Addr) : ToReplicaMessage → VRHandler Unit
  | .request req => handleRequest E remote req
  | .unloggedRequest op => handleUnloggedRequest E remote op
  | .prepare m => handlePrepare E remote m
  | .prepareOK m => handlePrepareOK E m
  | .commit m => handleCommit E m
  | .requestStateTransfer m => handleRequestStateTransfer remote m
  | .stateTransfer m => handleStateTransfer E m
  | .startViewChange m => handleStartViewChange E m
  | .doViewChange m => handleDoViewChange E wild m
  | .startView m => handleStartView E m
  | .recovery m => handleRecovery E remote m
  | .recoveryResponse m => handleRecoveryResponse E m
  | .notSet => abort

/-- The callback of a timer; `Timeout::Reset` has made the timer active again. -/
def timeout : Timer → VRHandler Unit
  | .viewChange => do
    let s ← get
    startViewChange E (s.view + 1)
  | .nullCommit => sendNullCommit E
  | .stateTransfer => modify fun s => { s with
      lastRequestStateTransferView := 0
      lastRequestStateTransferOpnum := 0 }
  | .resendPrepare => resendPrepare E
  | .closeBatch => closeBatch E
  | .recovery => sendRecoveryMessages E

/-- The replica constructed with `initialize = true`. -/
def Replica.initial : Replica :=
  let s := Replica.construct E
  if amLeader E s then s.start .nullCommit else s.start .viewChange

variable {E}

theorem Replica.initial_of_leader (h : amLeader E (Replica.construct E)) :
    Replica.initial E = (Replica.construct E).start .nullCommit := by
  simp [Replica.initial, h]

theorem Replica.initial_of_follower (h : ¬ amLeader E (Replica.construct E)) :
    Replica.initial E = (Replica.construct E).start .viewChange := by
  simp [Replica.initial, h]

/-- The timers aside, all replicas start in the same state. -/
theorem Replica.initial_eq :
    Replica.initial E = { Replica.construct E with active := (Replica.initial E).active } := by
  by_cases h : amLeader E (Replica.construct E)
  · rw [Replica.initial_of_leader h]
    rfl
  · rw [Replica.initial_of_follower h]
    rfl

variable (E)

/-- The replica constructed with `initialize = false`, with the nonce it drew, before it sends its
    recovery messages. -/
def Replica.restarted (nonce : Nat) : Replica :=
  { (Replica.construct E).start .recovery with status := .recovering, recoveryNonce := nonce }

end Dsnet.VR
