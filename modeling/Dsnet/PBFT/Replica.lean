import Dsnet.Spec.Effects

/-! `replication/pbft/message.proto` and `replication/pbft/replica.{h,cc}`: the PBFT messages, and
    `PBFTReplica` handler by handler.

    The primary gives every request an op number and sends batches of them in Preprepares; the replicas
    answer with Prepares, and what enough of these agree on with Commits. The view never changes. The log is
    a hashed one, and the hash of its last entry is the digest of a batch.

    Messages are those that have passed the verification of signatures. `NOT_REACHABLE`, `NOT_IMPLEMENTED`,
    `RPanic` and a null pointer end the process. What a handler sends it sends at its end, so one that is
    stopped half-way sends nothing in the source; here what it was to send may still arrive. -/

namespace Dsnet.PBFT
open Handler
open Spec (appendHashed lastHash)

/-! ### Messages -/

/-- `Reply`. -/
structure Reply where
  result : String
  requestNumber : Nat
  replicaId : Nat
  viewNumber : Nat
  deriving DecidableEq, Repr

/-- `Prepare`. -/
structure Prepare where
  viewNumber : Nat
  opNumber : Nat
  batchSize : Nat
  digest : String
  replicaId : Nat
  deriving DecidableEq, Repr

/-- `Commit`. -/
structure Commit where
  viewNumber : Nat
  opNumber : Nat
  batchSize : Nat
  digest : String
  replicaId : Nat
  deriving DecidableEq, Repr

/-- `PBFTMessage`; a `Preprepare` wraps the Prepare of the primary and the requests. -/
inductive Message where
  | request (req : Request)
  | preprepare (signedPrepare : Prepare) (signedMessage : List Request)
  | prepare (m : Prepare)
  | commit (m : Commit)
  deriving DecidableEq, Repr

/-! ### The state of a replica -/

/-- The arguments of the constructor, the hash of the log, and which Preprepares are too large for a packet. -/
structure Env where
  config : Configuration
  replicaIdx : Nat
  batchSize : Nat
  app : App
  sha1 : Spec.Sha1
  tooLarge : Prepare → List Request → Bool := fun _ _ => false

/-- `ClientEntry`; there is a reply when `has_reply` is set. -/
structure ClientEntry where
  requestNumber : Nat
  reply : Option Reply
  remote : Addr
  deriving DecidableEq, Repr

/-- The members of `PBFTReplica`. `timerStarted` says that `close_batch_timeout` has ever been started: its task
    may still come when it has been stopped. -/
structure Replica where
  viewNumber : Nat
  opNumber : Nat
  commitNumber : Nat
  timerActive : Bool
  timerStarted : Bool
  clientTable : Nat → Option ClientEntry
  log : Log
  prepareQuorum : Nat → String → StdMap Nat Prepare
  commitQuorum : Nat → String → StdMap Nat Commit
  requestBuffer : StdMap Nat Request
  requestBatch : List Request
  upcalls : List Upcall

abbrev Output := Net.Output Message Reply

abbrev RHandler := Handler Replica Output

/-- The requests executed so far, with their op numbers. -/
def Replica.executed (s : Replica) : List (Nat × Request) := executions s.upcalls

/-- The state the constructor sets up. -/
def Replica.initial : Replica where
  viewNumber := 0
  opNumber := 0
  commitNumber := 0
  timerActive := false
  timerStarted := false
  clientTable _ := none
  log := Log.empty
  prepareQuorum _ _ := StdMap.empty
  commitQuorum _ _ := StdMap.empty
  requestBuffer := StdMap.empty
  requestBatch := []
  upcalls := []

variable (E : Env)

/-- `IsPrimary`. -/
def isPrimary (s : Replica) : Prop := E.config.getLeaderIndex s.viewNumber = E.replicaIdx

instance (s : Replica) : Decidable (isPrimary E s) := inferInstanceAs (Decidable (_ = _))

/-- `quorum[opNumber][digest]` is this. -/
def setQuorum {β : Type} (quorum : Nat → String → StdMap Nat β) (opNumber : Nat) (digest : String)
    (votes : StdMap Nat β) : Nat → String → StdMap Nat β :=
  Function.update quorum opNumber (Function.update (quorum opNumber) digest votes)

/-! ### Requests -/

/-- The entry of a request that has been received. -/
def Replica.entryOf (s : Replica) (opNumber : Nat) (req : Request) : LogEntry :=
  { viewstamp := { view := s.viewNumber, opnum := opNumber }, state := .received, request := req }

/-- A request is logged. -/
def append (opNumber : Nat) (req : Request) : RHandler Unit := do
  let s ← get
  let log ← ofOption (appendHashed E.sha1 s.log (s.entryOf opNumber req))
  modify fun s => { s with log := log }

/-- The Prepare of `CloseBatch`. -/
def Replica.prepare (s : Replica) : Prepare where
  viewNumber := s.viewNumber
  opNumber := s.opNumber - s.requestBatch.length + 1
  batchSize := s.requestBatch.length
  digest := lastHash s.log
  replicaId := E.replicaIdx

/-- `CloseBatch`. -/
def closeBatch : RHandler Unit := do
  modify fun s => { s with timerActive := false }
  let s ← get
  assert (E.tooLarge (s.prepare E) s.requestBatch = false)
  emit (.toAll (.preprepare (s.prepare E) s.requestBatch))
  modify fun s => { s with requestBatch := [] }

/-- What the client table says of a request. -/
inductive Standing where
  | late
  | again (entry : ClientEntry)
  | next (entry : ClientEntry)
  | unknown
  deriving DecidableEq, Repr

/-- The comparisons at the start of `HandleRequest`. -/
def Replica.standing (s : Replica) (req : Request) : Standing :=
  match s.clientTable req.clientid with
  | none => .unknown
  | some entry =>
    if req.clientreqid < entry.requestNumber then .late
    else if entry.requestNumber = req.clientreqid then .again entry
    else .next entry

/-- The table entry of a client. -/
def Replica.setClient (s : Replica) (clientid : Nat) (entry : ClientEntry) : Replica :=
  { s with clientTable := Function.update s.clientTable clientid (some entry) }

/-- The second part of `HandleRequest`: the primary logs the request and takes it into the batch. -/
def queueRequest (req : Request) (entry : ClientEntry) : RHandler Unit := do
  modify fun s => { s with opNumber := s.opNumber + 1 }
  let s ← get
  append E s.opNumber req
  modify (·.setClient req.clientid { entry with requestNumber := req.clientreqid, reply := none })
  modify fun s => { s with
    requestBatch := s.requestBatch ++ [req]
    timerActive := true
    timerStarted := true }
  let s ← get
  when (E.batchSize ≤ s.requestBatch.length) (closeBatch E)

/-- What `HandleRequest` does with a request that is new. -/
def handleNewRequest (req : Request) (entry : ClientEntry) : RHandler Unit := do
  let s ← get
  if ¬ isPrimary E s then
    when (req.clientreqid ≠ 1) (emit (.toReplica (E.config.getLeaderIndex s.viewNumber) (.request req)))
  else queueRequest E req entry

/-- `HandleRequest`. -/
def handleRequest (remote : Addr) (req : Request) : RHandler Unit := do
  let s ← get
  match s.standing req with
  | .late => pure ()
  | .again entry => whenSome entry.reply fun m => emit (.toClient entry.remote m)
  | .next entry => handleNewRequest E req entry
  | .unknown =>
    if req.clientreqid ≠ 1 then abort
    else do
      let entry : ClientEntry := { requestNumber := req.clientreqid, reply := none, remote := remote }
      modify (·.setClient req.clientid entry)
      handleNewRequest E req entry

/-! ### Agreement -/

/-- The Commit that `InsertPrepare` sends. -/
def Replica.commitFor (s : Replica) (m : Prepare) : Commit where
  viewNumber := s.viewNumber
  opNumber := m.opNumber
  batchSize := m.batchSize
  digest := m.digest
  replicaId := E.replicaIdx

/-- The Prepares that are counted with `m`. -/
def Replica.prepares (s : Replica) (m : Prepare) : StdMap Nat Prepare :=
  (s.prepareQuorum m.opNumber m.digest).insert m.replicaId m

/-- `InsertPrepare`. -/
def insertPrepare (m : Prepare) : RHandler Unit := do
  let s ← get
  modify fun s => { s with prepareQuorum := setQuorum s.prepareQuorum m.opNumber m.digest (s.prepares m) }
  if (s.prepares m).size < 2 * E.config.f then pure ()
  else if s.log.lastOpnum < m.opNumber then abort
  else do
    let _ ← ofOption (s.log.find m.opNumber)
    modify fun s => { s with log := s.log.setStatus m.opNumber .prepared }
    emit (.toAll (.commit (s.commitFor E m)))

/-- The requests of a batch are logged. -/
def appendBatch : Nat → List Request → RHandler Unit
  | _, [] => pure ()
  | opNumber, req :: reqs => do
    append E opNumber req
    appendBatch (opNumber + 1) reqs

/-- The requests of `request_buffer` that come next are logged. Each round takes one of them out. -/
def appendBuffered : Nat → RHandler Unit
  | 0 => pure ()
  | n + 1 => do
    let s ← get
    match s.requestBuffer.toList with
    | [] => pure ()
    | (opNumber, req) :: _ =>
      if opNumber ≠ s.log.lastOpnum + 1 then pure ()
      else do
        append E opNumber req
        modify fun s => { s with requestBuffer := s.requestBuffer.erase opNumber }
        appendBuffered n

/-- The requests of a batch are buffered. -/
def bufferBatch (buffer : StdMap Nat Request) : Nat → List Request → StdMap Nat Request
  | _, [] => buffer
  | opNumber, req :: reqs => bufferBatch (buffer.insert opNumber req) (opNumber + 1) reqs

/-- The requests of a Preprepare are logged, or buffered until they come next. -/
def storeRequests (opNumber : Nat) (requests : List Request) : RHandler Unit := do
  let s ← get
  if opNumber ≠ s.log.lastOpnum + 1 then
    modify fun s => { s with requestBuffer := bufferBatch s.requestBuffer opNumber requests }
  else do
    appendBatch E opNumber requests
    let s ← get
    appendBuffered E s.requestBuffer.size

/-- Is the entry in this state? -/
def Replica.hasState (s : Replica) (opNumber : Nat) (st : LogEntryState) : Bool :=
  ((s.log.find opNumber).map LogEntry.state) == some st

/-- `HandlePreprepare`. -/
def handlePreprepare (m : Prepare) (requests : List Request) : RHandler Unit := do
  let s ← get
  if m.viewNumber < s.viewNumber then pure ()
  else if s.viewNumber < m.viewNumber then abort
  else if isPrimary E s then abort
  else if m.opNumber ≤ s.log.lastOpnum then pure ()
  else do
    storeRequests E m.opNumber requests
    insertPrepare E m
    let s ← get
    when (¬ (m.opNumber ≤ s.log.lastOpnum ∧ s.hasState m.opNumber .prepared)) <|
      emit (.toAll (.prepare { m with replicaId := E.replicaIdx }))

/-- `HandlePrepare`. -/
def handlePrepare (m : Prepare) : RHandler Unit := do
  let s ← get
  if m.viewNumber < s.viewNumber then pure ()
  else if s.viewNumber < m.viewNumber then abort
  else if m.opNumber ≤ s.log.lastOpnum then do
    let entry ← ofOption (s.log.find m.opNumber)
    if entry.state ≠ .received then pure ()
    else insertPrepare E m
  else insertPrepare E m

/-! ### Executing -/

/-- The entries of the batch are committed. -/
def commitBatch : Nat → Nat → RHandler Unit
  | _, 0 => pure ()
  | opNumber, n + 1 => do
    let s ← get
    let _ ← ofOption (s.log.find opNumber)
    modify fun s => { s with log := s.log.setStatus opNumber .committed }
    commitBatch (opNumber + 1) n

/-- The body of the loop of `HandleCommit`. A client that has never sent its first request to the replica has
    no address. -/
def executeNext (entry : LogEntry) : RHandler Unit := do
  modify fun s => { s with commitNumber := s.commitNumber + 1 }
  let s ← get
  modify fun s => { s with upcalls := s.upcalls ++ [.execute s.commitNumber entry.request] }
  let client ← ofOption (s.clientTable entry.request.clientid)
  let m : Reply :=
    { viewNumber := s.viewNumber
      requestNumber := entry.request.clientreqid
      result := E.app.replicaUpcall s.upcalls s.commitNumber entry.request.op false
      replicaId := E.replicaIdx }
  modify (·.setClient entry.request.clientid
    { client with requestNumber := entry.request.clientreqid, reply := some m })
  emit (.toClient client.remote m)

/-- The loop of `HandleCommit`. Each round executes one entry of the log. -/
def executeLoop : Nat → RHandler Unit
  | 0 => pure ()
  | n + 1 => do
    let s ← get
    whenSome (s.log.find (s.commitNumber + 1)) fun entry =>
      when (entry.state = .committed) do
        executeNext E entry
        executeLoop n

/-- The Commits that are counted with `m`. -/
def Replica.commits (s : Replica) (m : Commit) : StdMap Nat Commit :=
  (s.commitQuorum m.opNumber m.digest).insert m.replicaId m

/-- The second part of `HandleCommit`. -/
def insertCommit (m : Commit) : RHandler Unit := do
  let s ← get
  modify fun s => { s with commitQuorum := setQuorum s.commitQuorum m.opNumber m.digest (s.commits m) }
  if (s.commits m).size < 2 * E.config.f then pure ()
  else if s.log.lastOpnum < m.opNumber then abort
  else do
    commitBatch m.opNumber m.batchSize
    executeLoop E s.log.entries.length

/-- `HandleCommit`. -/
def handleCommit (m : Commit) : RHandler Unit := do
  let s ← get
  if m.viewNumber < s.viewNumber then pure ()
  else if s.viewNumber < m.viewNumber then abort
  else if m.opNumber ≤ s.log.lastOpnum then do
    let entry ← ofOption (s.log.find m.opNumber)
    if entry.state = .committed then pure ()
    else insertCommit E m
  else insertCommit E m

/-- `ReceiveMessage`. A Preprepare with fewer requests than its batch size is one that the process does not
    survive. -/
def receiveMessage (remote : Addr) : Message → RHandler Unit
  | .request req => handleRequest E remote req
  | .preprepare m requests =>
    if requests.length < m.batchSize then abort
    else handlePreprepare E m (requests.take m.batchSize)
  | .prepare m => handlePrepare E m
  | .commit m => handleCommit E m

/-! ### The group -/

/-- A group of replicas, with their application. -/
structure Group where
  config : Configuration
  batchSize : Nat
  app : Nat → App
  sha1 : Spec.Sha1
  tooLarge : Prepare → List Request → Bool := fun _ _ => false

/-- Replica `i` of the group. -/
def Group.env (G : Group) (i : Nat) : Env where
  config := G.config
  replicaIdx := i
  batchSize := G.batchSize
  app := G.app i
  sha1 := G.sha1
  tooLarge := G.tooLarge

/-- The group as a protocol. Anything may come from outside; the runs that are considered say what does. -/
def Group.protocol (G : Group) : Net.Protocol Replica Message Reply Unit Message where
  n := G.config.n
  init _ := .initial
  receive i := receiveMessage (G.env i)
  timeout i _ := closeBatch (G.env i)
  active s _ := s.timerStarted
  ask _ m := m

abbrev Sys := Net.Sys Replica Message

abbrev Event := Net.Event Unit Message

/-- The runs of the group. -/
def Group.system (G : Group) : System Sys Event := Net.system G.protocol

end Dsnet.PBFT
