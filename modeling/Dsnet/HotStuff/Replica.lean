import Dsnet.Common.Network
import Dsnet.Common.Quorum

/-! `replication/hotstuff/message.proto` and `replication/hotstuff/replica.{h,cc}`: the HotStuff messages,
    and `HotStuffReplica` handler by handler.

    The primary, which never changes, cuts its log into blocks. A block starts with an empty entry, and
    its first op number stands for it. The backups vote for the blocks; enough votes make a certificate,
    which the following block carries. With each certificate a replica enters the next view, and the third
    lets it execute what lies between the first and the second.

    Messages are those that have passed the verification of signatures. `NOT_REACHABLE`, `NOT_IMPLEMENTED`
    and `Panic` end the process. -/

namespace Dsnet.HotStuff
open Handler

/-! ### Messages -/

/-- `ReplyMessage`; `client_request` is a `uint32`. -/
structure ReplyMessage where
  clientRequest : Nat
  result : String
  replicaIndex : Nat
  deriving DecidableEq, Repr

/-- `VoteMessage`. -/
structure VoteMessage where
  replicaIndex : Nat
  opNumber : Nat
  deriving DecidableEq, Repr

/-- `QC`. -/
structure QC where
  opNumber : Nat := 0
  signedVote : List VoteMessage := []
  deriving DecidableEq, Repr

/-- `Block`; a `GenericMessage` has nothing else. -/
structure Block where
  opNumber : Nat
  request : List Request := []
  justify : QC := {}
  deriving DecidableEq, Repr

/-- `Message`, but for replies. -/
inductive Message where
  | request (req : Request)
  | generic (block : Block)
  | vote (m : VoteMessage)
  deriving DecidableEq, Repr

/-! ### The state of a replica -/

/-- The arguments of the constructor, and which blocks are too large for a packet. -/
structure Env where
  config : Configuration
  replicaIdx : Nat
  batchSize : Nat
  app : App
  tooLarge : Block → Bool := fun _ => false

/-- The timers of a replica. -/
inductive Timer where
  | resendVote | closeBatch
  deriving DecidableEq, Repr

/-- `ClientEntry`; there is a reply when `has_reply` is set. -/
structure ClientEntry where
  remote : Addr
  clientRequest : Nat
  reply : Option ReplyMessage
  deriving DecidableEq, Repr

/-- The members of `HotStuffReplica`; `pending` is the block of `pending_generic`, which only the primary
    has. -/
structure Replica where
  vote0 : VoteMessage
  genericQC : Option QC
  lockedQC : Option QC
  pending : Block
  highQC : Nat → StdMap Nat VoteMessage
  clientTable : Nat → Option ClientEntry
  log : Log
  blockBuffer : StdMap Nat Block
  active : Timer → Bool
  upcalls : List Upcall

abbrev Output := Net.Output Message ReplyMessage

abbrev RHandler := Handler Replica Output

/-- `GetPrimary`. -/
def primary : Nat := 0

/-- The requests executed so far, with their op numbers. -/
def Replica.executed (s : Replica) : List (Nat × Request) := executions s.upcalls

/-- `timer->Start()` and `timer->Reset()`. -/
def Replica.start (s : Replica) (t : Timer) : Replica :=
  { s with active := fun u => if u = t then true else s.active u }

/-- `if (!timer->Active()) timer->Start()`. -/
def Replica.ensureStarted (s : Replica) (t : Timer) : Replica := if s.active t then s else s.start t

/-- The request goes to the end of the pending block. -/
def Replica.addPending (s : Replica) (req : Request) : Replica :=
  { s with pending := { s.pending with request := s.pending.request ++ [req] } }

/-- The entry of a request. -/
def requestEntry (opNumber : Nat) (req : Request) : LogEntry :=
  { viewstamp := { view := 0, opnum := opNumber }, state := .prepared, request := req }

/-- The entry that every block starts with. -/
def noopEntry (opNumber : Nat) : LogEntry :=
  { viewstamp := { view := 0, opnum := opNumber }, state := .noop,
    request := { op := "", clientid := 0, clientreqid := 0 } }

variable (E : Env)

/-- `IsPrimary`. -/
def Env.isPrimary (E : Env) : Prop := E.replicaIdx = primary

instance (E : Env) : Decidable E.isPrimary := inferInstanceAs (Decidable (_ = _))

/-! ### Sending -/

/-- `SendVote`. -/
def sendVote (opNumber : Nat) : RHandler Unit := do
  emit (.toReplica primary (.vote { replicaIndex := E.replicaIdx, opNumber := opNumber }))
  modify (·.start .resendVote)

/-- `log.Append`. -/
def append (e : LogEntry) : RHandler Unit := do
  let s ← get
  let log ← ofOption (s.log.append e)
  modify fun s => { s with log := log }

/-- `StartNextBatch`. -/
def startNextBatch : RHandler Unit := do
  modify fun s => { s with pending := { opNumber := s.log.lastOpnum + 1 } }
  let s ← get
  append (noopEntry (s.log.lastOpnum + 1))

/-- `CloseBatch`. The block is sent when the handler is done. -/
def closeBatch : RHandler Unit := do
  if ¬ E.isPrimary then abort
  else do
    modify (·.start .closeBatch)
    let s ← get
    whenSome s.genericQC fun qc => do
      startNextBatch
      assert (E.tooLarge { s.pending with justify := qc } = false)
      emit (.toAll (.generic { s.pending with justify := qc }))

/-! ### Executing -/

/-- The table entry of the client gets the reply. -/
def Replica.setReply (s : Replica) (clientid : Nat) (entry : ClientEntry) (m : ReplyMessage) : Replica :=
  { s with clientTable := Function.update s.clientTable clientid (some { entry with reply := some m }) }

/-- The body of the loop of `EnterNextView`. -/
def executeOp (opNumber : Nat) : RHandler Unit := do
  let s ← get
  if s.log.lastOpnum < opNumber then abort
  else do
    let entry ← ofOption (s.log.find opNumber)
    if entry.state = .noop then pure ()
    else do
      modify fun s => { s with
        log := s.log.setStatus opNumber .committed
        upcalls := s.upcalls ++ [.execute opNumber entry.request] }
      let m : ReplyMessage :=
        { clientRequest := entry.request.clientreqid % 2 ^ 32
          result := E.app.replicaUpcall s.upcalls opNumber entry.request.op false
          replicaIndex := E.replicaIdx }
      whenSome (s.clientTable entry.request.clientid) fun c => do
        emit (.toClient c.remote m)
        modify (·.setReply entry.request.clientid c m)

/-- `EnterNextView`. -/
def enterNextView (justify : QC) : RHandler Unit := do
  let s ← get
  modify fun s => { s with
    lockedQC := s.genericQC
    genericQC := some justify }
  whenSome s.lockedQC fun commit =>
    when (commit.opNumber ≠ 0) <|
      whenSome s.genericQC fun locked =>
        forEach (List.range' commit.opNumber (locked.opNumber - commit.opNumber)) (executeOp E)

/-! ### Handlers -/

/-- What the client table says of a request. -/
inductive Standing where
  | fresh
  | late
  | again (reply : Option ReplyMessage)
  deriving DecidableEq, Repr

/-- The comparisons at the start of `HandleRequest`. -/
def Replica.standing (s : Replica) (req : Request) : Standing :=
  match s.clientTable req.clientid with
  | none => .fresh
  | some entry =>
    if req.clientreqid < entry.clientRequest then .late
    else if entry.clientRequest = req.clientreqid then .again entry.reply
    else .fresh

/-- The table entry of the client when it has sent a new request. -/
def Replica.requested (s : Replica) (remote : Addr) (req : Request) : Replica :=
  let entry : ClientEntry :=
    match s.clientTable req.clientid with
    | none => { remote := remote, clientRequest := req.clientreqid % 2 ^ 32, reply := none }
    | some entry => { entry with clientRequest := req.clientreqid % 2 ^ 32, reply := none }
  { s with clientTable := Function.update s.clientTable req.clientid (some entry) }

/-- The primary puts the request into the log and the pending block. -/
def assign (req : Request) : RHandler Unit := do
  let s ← get
  append (requestEntry (s.pending.opNumber + s.pending.request.length + 1) req)
  modify (·.addPending req)
  modify (·.ensureStarted .closeBatch)
  let s ← get
  when (E.batchSize ≤ s.pending.request.length) (closeBatch E)

/-- `HandleRequest`. -/
def handleRequest (remote : Addr) (req : Request) : RHandler Unit := do
  let s ← get
  match s.standing req with
  | .late => pure ()
  | .again reply => whenSome reply fun m => emit (.toClient remote m)
  | .fresh => do
    modify (·.requested remote req)
    when E.isPrimary (assign E req)

/-- The set of votes for the block of `m`, with `m`. -/
def Replica.votes (s : Replica) (m : VoteMessage) : StdMap Nat VoteMessage :=
  (s.highQC m.opNumber).insert m.replicaIndex m

/-- The certificate made of these votes and the primary's own for op number 0. -/
def Replica.certificate (s : Replica) (m : VoteMessage) : QC where
  opNumber := m.opNumber
  signedVote := (s.votes m).toList.map (·.2) ++ [s.vote0]

/-- Is the certificate newer than the one the replica has? -/
def Replica.newer (s : Replica) (opNumber : Nat) : Prop :=
  ∀ qc ∈ s.genericQC, qc.opNumber < opNumber

instance (s : Replica) (opNumber : Nat) : Decidable (s.newer opNumber) :=
  inferInstanceAs (Decidable (∀ qc ∈ s.genericQC, qc.opNumber < opNumber))

/-- `HandleVote`. -/
def handleVote (m : VoteMessage) : RHandler Unit := do
  if ¬ E.isPrimary then abort
  else do
    let s ← get
    when (s.newer m.opNumber) <| do
      modify fun s => { s with highQC := Function.update s.highQC m.opNumber (s.votes m) }
      when (2 * E.config.f ≤ (s.votes m).size) (enterNextView E (s.certificate m))

/-- The requests of a block are logged. -/
def appendRequests : Nat → List Request → RHandler Unit
  | _, [] => pure ()
  | opNumber, req :: reqs => do
    append (requestEntry opNumber req)
    appendRequests (opNumber + 1) reqs

/-- The block is logged. -/
def appendBlock (b : Block) : RHandler Unit := do
  append (noopEntry b.opNumber)
  appendRequests (b.opNumber + 1) b.request

/-- The blocks of `block_buffer` that come next are logged. Each round takes one of them out. -/
def appendBuffered : Nat → RHandler Unit
  | 0 => pure ()
  | n + 1 => do
    let s ← get
    match s.blockBuffer.toList with
    | [] => pure ()
    | (opNumber, b) :: _ =>
      if opNumber < s.log.lastOpnum + 1 then abort
      else if opNumber ≠ s.log.lastOpnum + 1 then pure ()
      else do
        appendBlock b
        modify fun s => { s with blockBuffer := s.blockBuffer.erase opNumber }
        appendBuffered n

/-- The first part of `HandleGeneric`: the block is logged, or buffered until it comes next. -/
def storeBlock (b : Block) : RHandler Unit := do
  let s ← get
  if b.opNumber < s.log.lastOpnum + 1 then abort
  else if s.log.lastOpnum + 1 < b.opNumber then
    modify fun s => { s with blockBuffer := s.blockBuffer.insert b.opNumber b }
  else do
    appendBlock b
    let s ← get
    appendBuffered s.blockBuffer.size

/-- `HandleGeneric`. -/
def handleGeneric (b : Block) : RHandler Unit := do
  if E.isPrimary then abort
  else do
    sendVote E b.opNumber
    storeBlock b
    let s ← get
    when (s.newer b.justify.opNumber) (enterNextView E b.justify)

/-- `ReceiveMessage`. -/
def receiveMessage (remote : Addr) : Message → RHandler Unit
  | .request req => handleRequest E remote req
  | .generic b => handleGeneric E b
  | .vote m => handleVote E m

/-- The callbacks of the timers. -/
def timeout : Timer → RHandler Unit
  | .resendVote => do
    let s ← get
    sendVote E ((s.genericQC.map QC.opNumber).getD 0)
  | .closeBatch => closeBatch E

/-! ### The group -/

/-- The state after the first task of the constructor: the primary has started its first batch. The vote for
    op number 0 that a backup sends there is the first that its timer sends. -/
def Replica.initial : Replica where
  vote0 := { replicaIndex := E.replicaIdx, opNumber := 0 }
  genericQC := none
  lockedQC := none
  pending := { opNumber := 1 }
  highQC _ := StdMap.empty
  clientTable _ := none
  log := if E.isPrimary then (Log.empty.append (noopEntry 1)).getD Log.empty else Log.empty
  blockBuffer := StdMap.empty
  active t := if E.isPrimary then t = .closeBatch else t = .resendVote
  upcalls := []

/-- A group of replicas, with their application. -/
structure Group where
  config : Configuration
  batchSize : Nat
  app : Nat → App
  tooLarge : Block → Bool := fun _ => false

/-- Replica `i` of the group. -/
def Group.env (G : Group) (i : Nat) : Env where
  config := G.config
  replicaIdx := i
  batchSize := G.batchSize
  app := G.app i
  tooLarge := G.tooLarge

/-- What comes from outside of the replicas that follow the code: requests, and votes of faulty backups. -/
inductive Ask where
  | request (req : Request)
  | vote (m : VoteMessage)
  deriving DecidableEq, Repr

/-- The message of an `Ask`. -/
def Ask.message : Ask → Message
  | .request req => .request req
  | .vote m => .vote m

/-- The group as a protocol. -/
def Group.protocol (G : Group) : Net.Protocol Replica Message ReplyMessage Timer Ask where
  n := G.config.n
  init i := .initial (G.env i)
  receive i := receiveMessage (G.env i)
  timeout i := timeout (G.env i)
  active s := s.active
  ask _ := Ask.message

abbrev Sys := Net.Sys Replica Message

abbrev Event := Net.Event Timer Ask

/-- The runs of the group. -/
def Group.system (G : Group) : System Sys Event := Net.system G.protocol

end Dsnet.HotStuff
