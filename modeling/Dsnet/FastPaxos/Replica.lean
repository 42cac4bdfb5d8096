import Dsnet.Common.Network
import Dsnet.Common.Quorum

/-! `replication/fastpaxos/fastpaxos-proto.proto` and `replication/fastpaxos/replica.{h,cc}`: the Fast
    Paxos messages and replica, handler by handler.

    Clients send their requests to all replicas. The leader's log decides the order; a follower logs
    what it receives at its next free slot, and the leader may take its acknowledgement when the slot
    has the same request. Logging is left out; `RPanic` and a failed `ASSERT` both end the process. -/

namespace Dsnet.FastPaxos
open Handler

/-! ### Messages -/

/-- `ReplyMessage`. -/
structure ReplyMessage where
  view : Nat
  opnum : Nat
  reply : String
  clientreqid : Nat
  deriving DecidableEq, Repr

/-- `ToClientMessage`. -/
inductive ToClientMessage where
  | reply (m : ReplyMessage)
  | unloggedReply (reply : String)
  deriving DecidableEq, Repr

/-- `PrepareOKMessage`. -/
structure PrepareOKMessage where
  view : Nat
  opnum : Nat
  replicaidx : Nat
  req : Request
  slowpath : Nat
  deriving DecidableEq, Repr

/-- `PrepareMessage`. -/
structure PrepareMessage where
  view : Nat
  opnum : Nat
  req : Request
  deriving DecidableEq, Repr

/-- `CommitMessage`. -/
structure CommitMessage where
  view : Nat
  opnum : Nat
  req : Request
  deriving DecidableEq, Repr

/-- `RequestStateTransferMessage`. -/
structure RequestStateTransferMessage where
  view : Nat
  opnum : Nat
  deriving DecidableEq, Repr

/-- `StateTransferMessage`. -/
structure StateTransferMessage where
  view : Nat
  opnum : Nat
  entries : List LogEntry
  lastop : Nat
  deriving DecidableEq, Repr

/-- `ToReplicaMessage`; `notSet` is a message with no case set. -/
inductive ToReplicaMessage where
  | request (req : Request)
  | unloggedRequest (op : String)
  | prepare (m : PrepareMessage)
  | prepareOK (m : PrepareOKMessage)
  | commit (m : CommitMessage)
  | requestStateTransfer (m : RequestStateTransferMessage)
  | stateTransfer (m : StateTransferMessage)
  | notSet
  deriving DecidableEq, Repr

/-! ### The state of a replica -/

/-- `ClientTableEntry`; a cleared reply is `none`. -/
structure ClientTableEntry where
  lastReqId : Nat := 0
  replied : Bool := false
  reply : Option ReplyMessage := none
  deriving DecidableEq, Repr

/-- The arguments of the constructor. -/
structure Env where
  config : Configuration
  replicaIdx : Nat
  app : App

/-- The timers of a replica. -/
inductive Timer where
  | stateTransfer | resendPrepare
  deriving DecidableEq, Repr

/-- The members of `FastPaxosReplica`. -/
structure Replica where
  status : ReplicaStatus
  view : Nat
  lastCommitted : Nat
  lastFastPath : Nat
  lastSlowPath : Nat
  lastRequestStateTransferView : Nat
  lastRequestStateTransferOpnum : Nat
  pendingPrepares : List (Addr × PrepareMessage)
  pendingPrepareOKs : List (Addr × PrepareOKMessage)
  lastPrepare : Option PrepareMessage
  log : Log
  clientAddresses : Nat → Option Addr
  clientTable : Nat → Option ClientTableEntry
  slowPrepareOKQuorum : QuorumSet (Nat × Nat) PrepareOKMessage
  fastPrepareOKQuorum : QuorumSet (Nat × Nat) PrepareOKMessage
  active : Timer → Bool
  upcalls : List Upcall

/-- What a handler hands to the transport. -/
abbrev Output := Net.Output ToReplicaMessage ToClientMessage

/-- What a `FastPaxosReplica` handler computes. -/
abbrev FPHandler := Handler Replica Output

namespace Replica

/-- `timer->Reset()` and `timer->Start()`. -/
def start (s : Replica) (t : Timer) : Replica :=
  { s with active := fun u => if u = t then true else s.active u }

/-- `clientTable[clientid]`, which creates the entry when it is missing. -/
def clientEntry (s : Replica) (clientid : Nat) : ClientTableEntry :=
  (s.clientTable clientid).getD {}

def setClientEntry (s : Replica) (clientid : Nat) (e : ClientTableEntry) : Replica :=
  { s with clientTable := fun c => if c = clientid then some e else s.clientTable c }

/-- The requests executed so far, with their opnums. -/
def executed (s : Replica) : List (Nat × Request) := executions s.upcalls

end Replica

variable (E : Env)

/-- The state the constructor sets up. -/
def Replica.initial : Replica where
  status := .normal
  view := 0
  lastCommitted := 0
  lastFastPath := 0
  lastSlowPath := 0
  lastRequestStateTransferView := 0
  lastRequestStateTransferOpnum := 0
  pendingPrepares := []
  pendingPrepareOKs := []
  lastPrepare := none
  log := Log.empty
  clientAddresses _ := none
  clientTable _ := none
  slowPrepareOKQuorum := QuorumSet.new (E.config.quorumSize - 1)
  fastPrepareOKQuorum := QuorumSet.new (E.config.fastQuorumSize - 1)
  active t := decide (t = .stateTransfer)
  upcalls := []

/-- `AmLeader`. -/
def amLeader (s : Replica) : Prop := E.config.getLeaderIndex s.view = E.replicaIdx

instance (s : Replica) : Decidable (amLeader E s) := inferInstanceAs (Decidable (_ = _))

/-! ### Committing -/

/-- The client table entry after the reply to `req` has been computed. -/
def recordReply (s : Replica) (req : Request) (m : ReplyMessage) : Replica :=
  let cte := s.clientEntry req.clientid
  s.setClientEntry req.clientid
    (if cte.lastReqId ≤ req.clientreqid then
      { lastReqId := req.clientreqid, replied := true, reply := some m }
    else cte)

/-- The body of the loop of `CommitUpTo`. -/
def commitNext : FPHandler Unit := do
  modify fun s => { s with lastCommitted := s.lastCommitted + 1 }
  let s ← get
  let entry ← ofOption (s.log.find s.lastCommitted)
  let m : ReplyMessage :=
    { view := entry.view
      opnum := entry.opnum
      reply := E.app.replicaUpcall s.upcalls s.lastCommitted entry.request.op false
      clientreqid := entry.request.clientreqid }
  modify fun s => { s with
    upcalls := s.upcalls ++ [.execute s.lastCommitted entry.request]
    log := s.log.setStatus s.lastCommitted .committed }
  modify (recordReply · entry.request m)
  whenSome (s.clientAddresses entry.request.clientid) fun a => emit (.toClient a (.reply m))

/-- `CommitUpTo`: the loop runs while `lastCommitted < upto`. -/
def commitUpTo (upto : Nat) : FPHandler Unit := do
  let s ← get
  iterate (upto - s.lastCommitted) (commitNext E)
  modify fun s => { s with lastSlowPath := max s.lastSlowPath s.lastCommitted }
  let s ← get
  assert (s.lastFastPath ≥ s.lastCommitted)

/-- The client table after `UpdateClientTable`. -/
def updateClientTable (s : Replica) (req : Request) : Replica :=
  let entry := s.clientEntry req.clientid
  s.setClientEntry req.clientid
    (if entry.lastReqId ≥ req.clientreqid then entry else { lastReqId := req.clientreqid })

/-- The body of the loop of `SendPrepareOKs`. -/
def sendPrepareOK (i : Nat) : FPHandler Unit := do
  let s ← get
  if i ≤ s.lastCommitted then return
  let entry ← ofOption (s.log.find i)
  assert (entry.state = .prepared)
  modify (updateClientTable · entry.request)
  emit (.toReplica (E.config.getLeaderIndex s.view) (.prepareOK
    { view := s.view, opnum := i, replicaidx := E.replicaIdx, slowpath := 1, req := entry.request }))

/-- `SendPrepareOKs`. -/
def sendPrepareOKs (oldLastOp : Nat) : FPHandler Unit := do
  let s ← get
  forEach (List.range' oldLastOp (s.lastSlowPath + 1 - oldLastOp)) (sendPrepareOK E)

/-- `RequestStateTransfer`. -/
def requestStateTransfer : FPHandler Unit := do
  let s ← get
  if s.lastRequestStateTransferOpnum ≠ 0 ∧ s.lastRequestStateTransferView = s.view ∧
      s.lastRequestStateTransferOpnum = s.lastCommitted then return
  modify fun s => { s with
    lastRequestStateTransferView := s.view
    lastRequestStateTransferOpnum := s.lastCommitted }
  emit (.toAll (.requestStateTransfer { view := s.view, opnum := s.lastCommitted }))

/-- `EnterView`. -/
def enterView (newview : Nat) : FPHandler Unit :=
  modify fun s => { s with
    view := newview
    status := .normal
    fastPrepareOKQuorum := s.fastPrepareOKQuorum.clear
    slowPrepareOKQuorum := s.slowPrepareOKQuorum.clear }

/-- `ResendPrepare`. -/
def resendPrepare : FPHandler Unit := do
  let s ← get
  assert (amLeader E s)
  if s.lastSlowPath = s.lastCommitted then return
  modify (·.start .resendPrepare)
  emit (.toAll (match s.lastPrepare with
    | some p => .prepare p
    | none => .notSet))

/-! ### Acknowledgements -/

/-- Does a fast-path acknowledgement name the request that is logged? -/
def matchesLog (req : Request) (msg : PrepareOKMessage) : Prop :=
  req.clientid = msg.req.clientid ∧ req.clientreqid = msg.req.clientreqid

instance (req : Request) (msg : PrepareOKMessage) : Decidable (matchesLog req msg) :=
  inferInstanceAs (Decidable (_ ∧ _))

/-- `HandlePrepareOK` with a quorum of acknowledgements, of which `numRequired` are needed. -/
def quorumReached (msg : PrepareOKMessage) (req : Request) (size numRequired : Nat) :
    FPHandler Unit := do
  commitUpTo E msg.opnum
  if size > numRequired then return
  let s ← get
  emit (.toAll (.commit { view := s.view, opnum := s.lastCommitted, req := req }))

/-- `HandlePrepareOK` from the quorum check on; `req` is the request of the log entry. -/
def recordPrepareOK (msg : PrepareOKMessage) (req : Request) : FPHandler Unit := do
  let s ← get
  if msg.slowpath ≠ 0 then
    let q := s.slowPrepareOKQuorum.add (msg.view, msg.opnum) msg.replicaidx msg
    modify fun s => { s with slowPrepareOKQuorum := q }
    whenSome (q.checkForQuorum (msg.view, msg.opnum)) fun msgs =>
      quorumReached E msg req msgs.size q.numRequired
  else
    let q := s.fastPrepareOKQuorum.add (msg.view, msg.opnum) msg.replicaidx msg
    modify fun s => { s with fastPrepareOKQuorum := q }
    whenSome (q.checkForQuorum (msg.view, msg.opnum)) fun msgs =>
      quorumReached E msg req msgs.size q.numRequired

/-- `HandlePrepareOK`. -/
def handlePrepareOK (remote : Addr) (msg : PrepareOKMessage) : FPHandler Unit := do
  let s ← get
  if s.status ≠ .normal then return
  if msg.view < s.view then return
  if msg.view > s.view then
    requestStateTransfer
  else if ¬ amLeader E s then return
  else if msg.opnum ≤ s.lastCommitted then return
  else if msg.opnum > s.lastSlowPath then
    modify fun s => { s with pendingPrepareOKs := s.pendingPrepareOKs ++ [(remote, msg)] }
  else
    let entry ← ofOption (s.log.find msg.opnum)
    assert (entry.state = .prepared)
    if msg.slowpath = 0 ∧ ¬ matchesLog entry.request msg then
      resendPrepare E
    else
      recordPrepareOK E msg entry.request

/-! ### Requests -/

/-- How `HandleRequest` finds the request in the client table. -/
inductive Duplicate where
  | stale | replied (reply : Option ReplyMessage) | unreplied | fresh
  deriving DecidableEq

/-- The check of `HandleRequest` against the client table. -/
def checkDuplicate (s : Replica) (req : Request) : Duplicate :=
  match s.clientTable req.clientid with
  | none => .fresh
  | some entry =>
    if req.clientreqid < entry.lastReqId then .stale
    else if req.clientreqid = entry.lastReqId then
      if entry.replied then .replied entry.reply else .unreplied
    else .fresh

/-- `HandleRequest` of a new request at the leader: log it, and count the acknowledgements that came
    before it. The Prepare is not sent yet. -/
def leadRequest (req : Request) : FPHandler Unit := do
  let s ← get
  assert (s.lastFastPath = s.lastSlowPath)
  modify fun s => { s with
    lastSlowPath := s.lastSlowPath + 1
    lastFastPath := s.lastSlowPath + 1 }
  let s ← get
  let log ← ofOption (s.log.append
    { viewstamp := { view := s.view, opnum := s.lastSlowPath }, state := .prepared, request := req })
  modify fun s => { s with
    log := log
    lastPrepare := some { view := s.view, opnum := s.lastSlowPath, req := req } }
  modify (·.start .resendPrepare)
  let s ← get
  modify fun s => { s with pendingPrepareOKs := [] }
  forEach s.pendingPrepareOKs fun (remote, m) => handlePrepareOK E remote m

/-- `HandleRequest` of a new request at a follower: log it at the next free slot, and acknowledge. -/
def followRequest (req : Request) : FPHandler Unit := do
  modify fun s => { s with lastFastPath := s.lastFastPath + 1 }
  let s ← get
  let log ← ofOption (s.log.append
    { viewstamp := { view := s.view, opnum := s.lastFastPath }, state := .prepared, request := req })
  modify fun s => { s with log := log }
  emit (.toReplica (E.config.getLeaderIndex s.view) (.prepareOK
    { view := s.view, opnum := s.lastFastPath, req := req, replicaidx := E.replicaIdx, slowpath := 0 }))

/-- `HandleRequest`. -/
def handleRequest (remote : Addr) (req : Request) : FPHandler Unit := do
  let s ← get
  if s.status ≠ .normal then return
  modify fun s => { s with
    clientAddresses := fun c => if c = req.clientid then some remote else s.clientAddresses c }
  match checkDuplicate s req with
  | .stale => pure ()
  | .replied reply => whenSome reply fun m => emit (.toClient remote (.reply m))
  | .unreplied => pure ()
  | .fresh => do
    modify (updateClientTable · req)
    if amLeader E s then leadRequest E req else followRequest E req

/-- `HandleUnloggedRequest`. -/
def handleUnloggedRequest (remote : Addr) (op : String) : FPHandler Unit := do
  let s ← get
  if s.status ≠ .normal then return
  modify fun s => { s with upcalls := s.upcalls ++ [.unlogged op] }
  emit (.toClient remote (.unloggedReply (E.app.unloggedUpcall s.upcalls op)))

/-! ### Prepares and commits -/

/-- The slow-path acknowledgement of a Prepare. -/
def acknowledge (msg : PrepareMessage) : FPHandler Unit := do
  let s ← get
  emit (.toReplica (E.config.getLeaderIndex s.view) (.prepareOK
    { view := msg.view, opnum := msg.opnum, replicaidx := E.replicaIdx, slowpath := 1
      req := msg.req }))

/-- `HandlePrepare` of the next operation: log it, in the place of what is there. -/
def logPrepared (msg : PrepareMessage) : FPHandler Unit := do
  let s ← get
  if msg.opnum > s.lastFastPath then
    assert (msg.opnum = s.lastFastPath + 1)
    modify fun s => { s with
      lastFastPath := s.lastFastPath + 1
      lastSlowPath := s.lastSlowPath + 1 }
    let log ← ofOption (s.log.append
      { viewstamp := { view := msg.view, opnum := msg.opnum }, state := .prepared
        request := msg.req })
    modify fun s => { s with log := log }
  else
    assert (msg.opnum = s.lastSlowPath + 1)
    let entry ← ofOption (s.log.find msg.opnum)
    assert (entry.state = .prepared)
    modify fun s => { s with
      log := s.log.setRequest msg.opnum msg.req
      lastSlowPath := s.lastSlowPath + 1 }

/-- `HandlePrepare`. -/
def handlePrepare (remote : Addr) (msg : PrepareMessage) : FPHandler Unit := do
  let s ← get
  if s.status ≠ .normal then return
  if msg.view < s.view then return
  if msg.view > s.view then
    requestStateTransfer
    modify fun s => { s with pendingPrepares := s.pendingPrepares ++ [(remote, msg)] }
  else
    assert (¬ amLeader E s)
    if msg.opnum ≤ s.lastSlowPath then
      acknowledge E msg
    else if msg.opnum > s.lastSlowPath + 1 then
      requestStateTransfer
      modify fun s => { s with pendingPrepares := s.pendingPrepares ++ [(remote, msg)] }
    else
      logPrepared msg
      modify (updateClientTable · msg.req)
      acknowledge E msg

/-- `HandleCommit`. -/
def handleCommit (msg : CommitMessage) : FPHandler Unit := do
  let s ← get
  if s.status ≠ .normal then return
  if msg.view < s.view then return
  if msg.view > s.view then
    requestStateTransfer
  else
    assert (¬ amLeader E s)
    if msg.opnum ≤ s.lastCommitted then return
    else if msg.opnum > s.lastFastPath then
      requestStateTransfer
    else if msg.opnum > s.lastSlowPath + 1 then return
    else
      -- a fast-path commit: only the next operation, and with the leader's request
      when (msg.opnum > s.lastSlowPath) do
        let entry ← ofOption (s.log.find msg.opnum)
        assert (entry.state = .prepared)
        modify fun s => { s with log := s.log.setRequest msg.opnum msg.req }
      commitUpTo E msg.opnum

/-! ### State transfer -/

/-- `HandleRequestStateTransfer`. -/
def handleRequestStateTransfer (remote : Addr) (msg : RequestStateTransferMessage) :
    FPHandler Unit := do
  let s ← get
  if s.status ≠ .normal then return
  if msg.view > s.view then
    requestStateTransfer
  else if ¬ amLeader E s then return
  else
    assert (s.lastSlowPath = s.lastFastPath)
    emit (.toAddr remote (.stateTransfer
      { view := s.view, opnum := s.lastCommitted, lastop := s.lastSlowPath
        entries := s.log.dump (msg.opnum + 1) }))

/-- The loop of `HandleStateTransfer` that installs the entries; it carries `oldLastSlowPath`. -/
def installTransferred : List LogEntry → Nat → FPHandler Nat
  | [], oldLastSlowPath => pure oldLastSlowPath
  | newEntry :: rest, oldLastSlowPath => do
    let s ← get
    if newEntry.opnum ≤ s.lastCommitted then
      installTransferred rest oldLastSlowPath
    else if newEntry.opnum ≤ s.lastSlowPath then
      let entry ← ofOption (s.log.find newEntry.opnum)
      assert (entry.view ≤ newEntry.view)
      if entry.view = newEntry.view then
        assert (entry.state = .prepared)
        installTransferred rest oldLastSlowPath
      else
        assert (entry.state ≠ .committed)
        let log ← ofOption (s.log.removeAfter newEntry.opnum)
        modify fun s => { s with log := log, lastSlowPath := newEntry.opnum }
        let log ← ofOption (log.append (Log.installed newEntry))
        modify fun s => { s with log := log }
        installTransferred rest newEntry.opnum
    else if newEntry.opnum ≤ s.lastFastPath then
      let entry ← ofOption (s.log.find newEntry.opnum)
      assert (entry.state = .prepared)
      modify fun s => { s with
        log := s.log.setRequest newEntry.opnum newEntry.request
        lastSlowPath := s.lastSlowPath + 1 }
      installTransferred rest oldLastSlowPath
    else
      assert (newEntry.opnum = s.lastSlowPath + 1)
      modify fun s => { s with
        lastSlowPath := s.lastSlowPath + 1
        lastFastPath := s.lastFastPath + 1 }
      let log ← ofOption (s.log.append (Log.installed newEntry))
      modify fun s => { s with log := log }
      installTransferred rest oldLastSlowPath

/-- `HandleStateTransfer` after the entries are installed. -/
def resumeTransferred (opnum oldLastSlowPath : Nat) : FPHandler Unit := do
  let s ← get
  assert (opnum ≤ s.lastSlowPath)
  assert (s.lastSlowPath ≤ s.lastFastPath)
  commitUpTo E opnum
  sendPrepareOKs E oldLastSlowPath
  let s ← get
  modify fun s => { s with pendingPrepares := [] }
  forEach s.pendingPrepares fun (remote, m) => handlePrepare E remote m

/-- `HandleStateTransfer`. -/
def handleStateTransfer (msg : StateTransferMessage) : FPHandler Unit := do
  let s ← get
  if msg.view < s.view then return
  let oldLastSlowPath ← installTransferred msg.entries s.lastSlowPath
  when (msg.view > s.view) (enterView msg.view)
  resumeTransferred E msg.opnum oldLastSlowPath

/-! ### The group -/

/-- `ReceiveMessage`. -/
def receiveMessage (remote : Addr) : ToReplicaMessage → FPHandler Unit
  | .request req => handleRequest E remote req
  | .unloggedRequest op => handleUnloggedRequest E remote op
  | .prepare m => handlePrepare E remote m
  | .prepareOK m => handlePrepareOK E remote m
  | .commit m => handleCommit E m
  | .requestStateTransfer m => handleRequestStateTransfer E remote m
  | .stateTransfer m => handleStateTransfer E m
  | .notSet => abort

/-- The callback of a timer. -/
def timeout : Timer → FPHandler Unit
  | .stateTransfer => modify fun s => { s with
      lastRequestStateTransferView := 0
      lastRequestStateTransferOpnum := 0 }
  | .resendPrepare => resendPrepare E

/-- A group: its configuration, the application of each replica, and the operation that each client
    sends under each of its request numbers. -/
structure Group where
  config : Configuration
  app : Nat → App
  op : Nat → Nat → String

/-- The environment of replica `r`. -/
def Group.env (G : Group) (r : Nat) : Env :=
  { config := G.config, replicaIdx := r, app := G.app r }

/-- What a client asks: the operation with a request number, or an unlogged one. -/
inductive Ask where
  | request (clientreqid : Nat)
  | unlogged (op : String)
  deriving DecidableEq, Repr

/-- `SendRequest` and `InvokeUnlogged` of the client with this id. -/
def Group.ask (G : Group) (clientid : Nat) : Ask → ToReplicaMessage
  | .request i => .request { op := G.op clientid i, clientid := clientid, clientreqid := i }
  | .unlogged op => .unloggedRequest op

/-- The protocol a group runs. -/
def Group.protocol (G : Group) : Net.Protocol Replica ToReplicaMessage ToClientMessage Timer Ask where
  n := G.config.n
  init r := Replica.initial (G.env r)
  receive r := receiveMessage (G.env r)
  timeout r := FastPaxos.timeout (G.env r)
  active s t := s.active t
  ask := G.ask

abbrev Sys := Net.Sys Replica ToReplicaMessage

abbrev Event := Net.Event Timer Ask

/-- The runs of a group. -/
abbrev system (G : Group) : System Sys Event := Net.system G.protocol

end Dsnet.FastPaxos
