import Dsnet.Common.Network
import Dsnet.Common.Quorum

/-! `replication/minbft/message.proto`, `replication/minbft/adapter.{h,cc}` and
    `replication/minbft/replica.{h,cc}`: the MinBFT messages, and `MinBFTReplica` handler by handler.

    Every Prepare and Commit takes the next UI of its sender, and a replica handles those of one sender in
    the order of their UIs. The primary sends batches of requests in Prepares; a replica that has logged
    a batch sends a Commit for the UI of its Prepare, and executes it when `f + 1` have. The view never
    changes.

    Messages are those that have passed the verification of signatures. `NOT_REACHABLE`, `NOT_IMPLEMENTED`
    and a null pointer end the process. Each replica is a process of its own, with its own counter. -/

namespace Dsnet.MinBFT
open Handler

/-! ### Messages -/

/-- `Reply`. -/
structure Reply where
  result : String
  replicaId : Nat
  requestNumber : Nat
  deriving DecidableEq, Repr

/-- `Prepare`, with its requests parsed. -/
structure Prepare where
  viewNumber : Nat
  signedRequest : List Request
  deriving DecidableEq, Repr

/-- `Commit`. -/
structure Commit where
  viewNumber : Nat
  primaryUi : Nat
  replicaId : Nat
  deriving DecidableEq, Repr

/-- The cases of `UIMessage`. -/
inductive UISub where
  | prepare (m : Prepare)
  | commit (m : Commit)
  deriving DecidableEq, Repr

/-- `UIMessage`. -/
structure UIMessage where
  sub : UISub
  replicaId : Nat
  deriving DecidableEq, Repr

/-- `MinBFTMessage`; a `UIMessage` comes in a `MinBFTAdapter`, which has its UI. -/
inductive Message where
  | signedRequest (request : Request)
  | uiMessage (ui : Nat) (m : UIMessage)
  deriving DecidableEq, Repr

/-! ### The state of a replica -/

/-- The arguments of the constructor. -/
structure Env where
  config : Configuration
  replicaIdx : Nat
  batchSize : Nat
  app : App

/-- `ClientEntry`; there is a reply when it is `ready`. -/
structure ClientEntry where
  remote : Addr
  requestNumber : Nat
  ready : Option Reply
  deriving DecidableEq, Repr

/-- The members of `MinBFTReplica`, and `s_ui` of its process. `sent` is a history: what the replica has sent
    with its UIs, in their order. `timerStarted` says that `close_batch_timeout` has ever been started: its
    task may still come when it has been stopped. -/
structure Replica where
  sUi : Nat
  requestBatch : List Request
  timerActive : Bool
  timerStarted : Bool
  lowOp : Nat → Option Nat
  highOp : Nat → Option Nat
  uiQueue : Nat → StdMap Nat UIMessage
  nextUi : Nat → Nat
  commitQuorum : QuorumSet Nat Commit
  viewNumber : Nat
  commitNumber : Nat
  log : Log
  clientTable : Nat → Option ClientEntry
  epilogueList : List (Addr × Reply)
  upcalls : List Upcall
  sent : List UISub

abbrev Output := Net.Output Message Reply

abbrev RHandler := Handler Replica Output

/-- The requests executed so far, with their op numbers. -/
def Replica.executed (s : Replica) : List (Nat × Request) := executions s.upcalls

/-- The table entry of a client. -/
def Replica.setClient (s : Replica) (clientid : Nat) (entry : ClientEntry) : Replica :=
  { s with clientTable := Function.update s.clientTable clientid (some entry) }

variable (E : Env)

/-- The state the constructor sets up. -/
def Replica.initial : Replica where
  sUi := 0
  requestBatch := []
  timerActive := false
  timerStarted := false
  lowOp _ := none
  highOp _ := none
  uiQueue _ := StdMap.empty
  nextUi i := if i < E.config.n then 1 else 0
  commitQuorum := .new (E.config.f + 1)
  viewNumber := 0
  commitNumber := 0
  log := Log.empty
  clientTable _ := none
  epilogueList := []
  upcalls := []
  sent := []

/-- `ConcludeEpilogue`. -/
def concludeEpilogue : RHandler Unit := do
  let s ← get
  forEach s.epilogueList fun x => emit (.toClient x.1 x.2)
  modify fun s => { s with epilogueList := [] }

/-- A request is logged. -/
def append (req : Request) : RHandler Unit := do
  let s ← get
  let entry : LogEntry :=
    { viewstamp := { view := s.viewNumber, opnum := s.log.lastOpnum + 1 }
      state := .prepared
      request := req }
  let log ← ofOption (s.log.append entry)
  modify fun s => { s with log := log }

/-- The last lines of `SendCommit` and `CloseBatch`: a message is sent with the UI that was allocated last. -/
def sendUi (sub : UISub) : RHandler Unit := do
  let s ← get
  emit (.toAll (.uiMessage s.sUi { sub := sub, replicaId := E.replicaIdx }))
  modify fun s => { s with sent := s.sent ++ [sub] }

/-! ### Commits -/

/-- The entries of a batch are committed, from `op_number` on. -/
def commitRange : Nat → Nat → RHandler Unit
  | _, 0 => pure ()
  | opNumber, n + 1 => do
    let s ← get
    let _ ← ofOption (s.log.find opNumber)
    modify fun s => { s with log := s.log.setStatus opNumber .committed }
    commitRange (opNumber + 1) n

/-- The body of the execution loop of `AddCommit`. -/
def executeNext (entry : LogEntry) : RHandler Unit := do
  modify fun s => { s with commitNumber := s.commitNumber + 1 }
  let s ← get
  let reply : Reply :=
    { replicaId := E.replicaIdx
      requestNumber := entry.request.clientreqid
      result := E.app.replicaUpcall s.upcalls s.commitNumber entry.request.op false }
  modify fun s => { s with upcalls := s.upcalls ++ [.execute s.commitNumber entry.request] }
  whenSome (s.clientTable entry.request.clientid) fun client => do
    modify (·.setClient entry.request.clientid { client with ready := some reply })
    modify fun s => { s with epilogueList := s.epilogueList ++ [(client.remote, reply)] }

/-- The execution loop of `AddCommit`. Each round executes one entry of the log. -/
def executeLoop : Nat → RHandler Unit
  | 0 => pure ()
  | n + 1 => do
    let s ← get
    whenSome (s.log.find (s.commitNumber + 1)) fun entry =>
      when (entry.state = .committed) do
        executeNext E entry
        executeLoop n

/-- `AddCommit`, when there is a quorum. -/
def commitBatch (primaryUi : Nat) : RHandler Unit := do
  let s ← get
  let low ← ofOption (s.lowOp primaryUi)
  commitRange low ((s.highOp primaryUi).getD 0 + 1 - low)
  executeLoop E s.log.entries.length

/-- `AddCommit`. -/
def addCommit (m : Commit) : RHandler Unit := do
  modify fun s => { s with commitQuorum := s.commitQuorum.add m.primaryUi m.replicaId m }
  let s ← get
  whenSome (s.commitQuorum.checkForQuorum m.primaryUi) fun _ => commitBatch E m.primaryUi

/-- The Commit of the replica for a Prepare of the primary. -/
def Replica.commitFor (s : Replica) (ui : Nat) : Commit where
  viewNumber := s.viewNumber
  replicaId := E.replicaIdx
  primaryUi := ui

/-- `SendCommit`. -/
def sendCommit (ui : Nat) : RHandler Unit := do
  modify fun s => { s with sUi := s.sUi + 1 }
  let s ← get
  sendUi E (.commit (s.commitFor E ui))
  addCommit E (s.commitFor E ui)

/-- `HandleCommit`. -/
def handleCommit (m : Commit) : RHandler Unit := do
  let s ← get
  if (s.highOp m.primaryUi).any (· ≤ s.commitNumber) then pure ()
  else addCommit E m

/-! ### Prepares -/

/-- The requests of a Prepare are logged. -/
def appendRequests : List Request → RHandler Unit
  | [] => pure ()
  | req :: reqs => do
    append req
    appendRequests reqs

/-- `HandlePrepare`. -/
def handlePrepare (m : Prepare) (ui : Nat) : RHandler Unit := do
  let s ← get
  if m.viewNumber < s.viewNumber then pure ()
  else if s.viewNumber < m.viewNumber then abort
  else if E.config.getLeaderIndex s.viewNumber = E.replicaIdx then abort
  else do
    modify fun s => { s with lowOp := Function.update s.lowOp ui (some (s.log.lastOpnum + 1)) }
    appendRequests m.signedRequest
    modify fun s => { s with highOp := Function.update s.highOp ui (some s.log.lastOpnum) }
    sendCommit E ui

/-! ### Requests -/

/-- `CloseBatch`. -/
def closeBatch : RHandler Unit := do
  modify fun s => { s with timerActive := false, sUi := s.sUi + 1 }
  let s ← get
  let prepare : Prepare := { viewNumber := s.viewNumber, signedRequest := s.requestBatch }
  modify fun s => { s with
    lowOp := Function.update s.lowOp s.sUi (some (s.log.lastOpnum - s.requestBatch.length + 1))
    highOp := Function.update s.highOp s.sUi (some s.log.lastOpnum)
    requestBatch := [] }
  sendUi E (.prepare prepare)
  sendCommit E s.sUi

/-- The second part of `HandleRequest`: the primary logs the request and takes it into the batch. -/
def queueRequest (req : Request) : RHandler Unit := do
  append req
  modify fun s => { s with
    requestBatch := s.requestBatch ++ [req]
    timerActive := true
    timerStarted := true }
  let s ← get
  when (E.batchSize ≤ s.requestBatch.length) (closeBatch E)

/-- What `HandleRequest` does with a request that is new. -/
def handleNewRequest (req : Request) (entry : ClientEntry) : RHandler Unit := do
  modify (·.setClient req.clientid { entry with requestNumber := req.clientreqid, ready := none })
  let s ← get
  if E.config.getLeaderIndex s.viewNumber ≠ E.replicaIdx then pure ()
  else queueRequest E req

/-- `HandleRequest`. -/
def handleRequest (remote : Addr) (req : Request) : RHandler Unit := do
  let s ← get
  match s.clientTable req.clientid with
  | some entry =>
    if req.clientreqid < entry.requestNumber then pure ()
    else if entry.requestNumber = req.clientreqid then
      whenSome entry.ready fun reply => emit (.toClient remote reply)
    else handleNewRequest E req entry
  | none =>
    handleNewRequest E req { remote := remote, requestNumber := req.clientreqid, ready := none }

/-! ### The order of the UIs -/

/-- The handler of a UI message. -/
def handleUi (ui : Nat) : UISub → RHandler Unit
  | .prepare m => handlePrepare E m ui
  | .commit m => handleCommit E m

/-- `next_ui[remote_id] += 1`. -/
def Replica.countUi (s : Replica) (remoteId : Nat) : Replica :=
  { s with nextUi := Function.update s.nextUi remoteId (s.nextUi remoteId + 1) }

/-- The queue of a sender. -/
def Replica.setQueue (s : Replica) (remoteId : Nat) (queue : StdMap Nat UIMessage) : Replica :=
  { s with uiQueue := Function.update s.uiQueue remoteId queue }

/-- The loop of `ReceiveMessage`: the messages that have waited for this one. Each round takes one of them out of
    the queue. -/
def drainQueue (remoteId : Nat) : Nat → RHandler Unit
  | 0 => pure ()
  | n + 1 => do
    let s ← get
    match (s.uiQueue remoteId).toList with
    | [] => pure ()
    | (ui, m) :: _ =>
      if ui ≠ s.nextUi remoteId then pure ()
      else do
        modify (·.countUi remoteId)
        handleUi E ui m.sub
        modify fun s => s.setQueue remoteId ((s.uiQueue remoteId).erase ui)
        drainQueue remoteId n

/-- A `UIMessage` of `ReceiveMessage`. -/
def receiveUi (ui : Nat) (m : UIMessage) : RHandler Unit := do
  let s ← get
  if ui ≠ s.nextUi m.replicaId then
    modify fun s => s.setQueue m.replicaId ((s.uiQueue m.replicaId).insert ui m)
  else do
    modify (·.countUi m.replicaId)
    handleUi E ui m.sub
    drainQueue E m.replicaId (s.uiQueue m.replicaId).size
    concludeEpilogue

/-- `ReceiveMessage`. -/
def receiveMessage (remote : Addr) : Message → RHandler Unit
  | .signedRequest request => do
    handleRequest E remote request
    concludeEpilogue
  | .uiMessage ui m => receiveUi E ui m

/-! ### The group -/

/-- A group of replicas, with their application. -/
structure Group where
  config : Configuration
  batchSize : Nat
  app : Nat → App

/-- Replica `i` of the group. -/
def Group.env (G : Group) (i : Nat) : Env where
  config := G.config
  replicaIdx := i
  batchSize := G.batchSize
  app := G.app i

/-- The group as a protocol. All replicas follow the code: what comes from outside are the requests of clients. -/
def Group.protocol (G : Group) : Net.Protocol Replica Message Reply Unit Request where
  n := G.config.n
  init i := .initial (G.env i)
  receive i := receiveMessage (G.env i)
  timeout i _ := closeBatch (G.env i)
  active s _ := s.timerStarted
  ask _ req := .signedRequest req

abbrev Sys := Net.Sys Replica Message

abbrev Event := Net.Event Unit Request

/-- The runs of the group. -/
def Group.system (G : Group) : System Sys Event := Net.system G.protocol

end Dsnet.MinBFT
