import Dsnet.Common.Network
import Dsnet.Common.Quorum

/-! `replication/tombft/message.proto` and `replication/tombft/replica.{h,cc}`: the TOMBFT messages, and
    `TOMBFTHMACReplica` handler by handler.

    A sequencer stamps each request that clients multicast with its session and a number, and a replica
    executes the requests of a session in the order of their numbers. The first packet tells it where
    they begin; when the session changes, the replicas agree on the new one with an epoch change.

    The sums of `offset` and `last_executed` are never negative (`lastNumber_nonneg`), so the unsigned
    comparisons of the source are those of integers. Counters of statistics are left out, and so is the
    query timer, which is never started. -/

namespace Dsnet.TOMBFT
open Handler

/-! ### Messages -/

/-- A verified packet with a request, and what the adapter has read of its header. Both numbers are 0 for
    a request that was not multicast; a multicast one without a number ends the process. -/
structure Packet where
  number : Nat
  session : Nat
  request : Request
  number_lt : number < 2 ^ 32 := by decide
  session_lt : session < 2 ^ 16 := by decide
  sequenced : number = 0 ↔ session = 0 := by decide
  deriving DecidableEq

/-- `SessionNumber()`, which returns a `uint8_t`. -/
def Packet.sessionNumber (p : Packet) : Nat := p.session % 2 ^ 8

/-- `ReplyMessage`; `client_request` is a `uint32`. -/
structure ReplyMessage where
  clientRequest : Nat
  result : String
  replicaIndex : Nat
  deriving DecidableEq, Repr

/-- `ViewChange`. -/
structure ViewChange where
  viewNumber : Nat
  nextViewNumber : Nat
  highMessageNumber : Nat
  replicaIndex : Nat
  deriving DecidableEq, Repr

/-- `ViewStart`. -/
structure ViewStart where
  viewNumber : Nat
  highMessageNumber : Nat
  deriving DecidableEq, Repr

/-- `EpochStart`. -/
structure EpochStart where
  sessionNumber : Nat
  highMessageNumber : Nat
  replicaIndex : Nat
  deriving DecidableEq, Repr

/-- `QueryMessage`. -/
structure QueryMessage where
  replicaIndex : Nat
  messageNumber : Nat
  deriving DecidableEq, Repr

/-- `Message`, but for replies. -/
inductive Message where
  | request (p : Packet)
  | viewChange (m : ViewChange)
  | viewStart (m : ViewStart)
  | epochStart (m : EpochStart)
  | query (m : QueryMessage)
  deriving DecidableEq

/-! ### The state of a replica -/

/-- The arguments of the constructor. -/
structure Env where
  config : Configuration
  replicaIdx : Nat
  app : App

/-- `LogEntry`, with the packet its request has come in, and with the session and the offset of the replica
    when it was executed. No handler reads these. -/
structure Entry extends LogEntry where
  packet : Packet
  session : Nat
  offset : Int
  deriving DecidableEq

/-- The members of `TOMBFTHMACReplica`. The buffers keep whole packets, though `tom_buffer` is only read for
    their requests. -/
structure Replica where
  status : ReplicaStatus
  offset : Int
  lastExecuted : Nat
  highVerified : Nat
  sessionNumber : Nat
  log : List Entry
  clientTable : Nat → Option ReplyMessage
  addressTable : Nat → Option Addr
  viewChangeSet : StdMap Nat ViewChange
  epochStartSet : StdMap Nat EpochStart
  nextQueryNumber : Nat
  queryBuffer : StdMap Nat Packet
  tomBuffer : StdMap Nat Packet
  upcalls : List Upcall

abbrev Output := Net.Output Message ReplyMessage

abbrev RHandler := Handler Replica Output

/-- The state the constructor sets up. -/
def Replica.initial : Replica where
  status := .normal
  offset := 0
  lastExecuted := 0
  highVerified := 2 ^ 64 - 1
  sessionNumber := 0
  log := []
  clientTable _ := none
  addressTable _ := none
  viewChangeSet := StdMap.empty
  epochStartSet := StdMap.empty
  nextQueryNumber := 0
  queryBuffer := StdMap.empty
  tomBuffer := StdMap.empty
  upcalls := []

/-- `offset + last_executed`: the number of the last request that was executed in the session. -/
def Replica.lastNumber (s : Replica) : Int := s.offset + s.lastExecuted

variable (E : Env)

/-! ### Executing -/

/-- The request of the packet is logged. -/
def Replica.append (s : Replica) (p : Packet) : Replica :=
  { s with
    lastExecuted := s.lastExecuted + 1
    log := s.log ++ [{
      viewstamp := { view := 0, opnum := s.lastExecuted + 1 }, state := .speculative
      request := p.request, packet := p, session := s.sessionNumber, offset := s.offset }] }

/-- `Execute`, and the reply that is kept. -/
def execute (req : Request) : RHandler ReplyMessage := do
  let s ← get
  let result := E.app.replicaUpcall s.upcalls s.lastExecuted req.op false
  let reply : ReplyMessage :=
    { clientRequest := req.clientreqid % 2 ^ 32, result := result, replicaIndex := E.replicaIdx }
  modify fun s => { s with
    upcalls := s.upcalls ++ [.execute s.lastExecuted req]
    clientTable := Function.update s.clientTable req.clientid (some reply) }
  return reply

/-- The reply goes to where the client has last been heard of. -/
def sendReply (clientid : Nat) (reply : ReplyMessage) : RHandler Unit := do
  let s ← get
  whenSome (s.addressTable clientid) fun addr => emit (.toClient addr reply)

/-- `ExecuteOne`. A request older than the client's last is only logged, and one that is its last is
    answered again. -/
def executeOne (p : Packet) : RHandler Unit := do
  modify fun s => s.append p
  let s ← get
  match s.clientTable p.request.clientid with
  | none => do
    let reply ← execute E p.request
    sendReply p.request.clientid reply
  | some reply =>
    if p.request.clientreqid < reply.clientRequest then pure ()
    else if reply.clientRequest = p.request.clientreqid then sendReply p.request.clientid reply
    else do
      let reply ← execute E p.request
      sendReply p.request.clientid reply

/-- `TryExecute`. A round that goes on takes one packet from the buffer, so their number bounds the number of
    rounds. -/
def tryExecuteLoop : Nat → RHandler Unit
  | 0 => pure ()
  | n + 1 => do
    let s ← get
    match s.tomBuffer.toList with
    | [] => pure ()
    | (number, p) :: _ =>
      if s.highVerified < number then pure ()
      else if (number : Int) ≠ s.lastNumber + 1 then pure ()
      else do
        executeOne E p
        modify fun s => { s with tomBuffer := s.tomBuffer.erase number }
        tryExecuteLoop n

/-- `TryExecute`. -/
def tryExecute : RHandler Unit := do
  let s ← get
  tryExecuteLoop E s.tomBuffer.size

/-! ### The epoch change -/

/-- The quorum of an epoch change. -/
def Env.quorum (E : Env) : Nat := E.config.f * 2 + 1

/-- `InsertEpochStart`. -/
def insertEpochStart (m : EpochStart) : RHandler Unit := do
  modify fun s => { s with epochStartSet := s.epochStartSet.emplace m.replicaIndex m }
  let s ← get
  if s.epochStartSet.size < E.quorum then pure ()
  else do
    modify fun s => { s with
      status := .normal, viewChangeSet := StdMap.empty, epochStartSet := StdMap.empty
      sessionNumber := m.sessionNumber, offset := 0 - s.lastExecuted }
    tryExecute E

/-- The message that `SendEpochStart` sends. -/
def Replica.epochStart (s : Replica) (sessionNumber : Nat) : EpochStart where
  sessionNumber := sessionNumber % 2 ^ 32
  highMessageNumber := s.lastExecuted % 2 ^ 32
  replicaIndex := E.replicaIdx

/-- `SendEpochStart`. -/
def sendEpochStart (sessionNumber : Nat) : RHandler Unit := do
  let s ← get
  emit (.toAll (.epochStart (s.epochStart E sessionNumber)))
  insertEpochStart E (s.epochStart E sessionNumber)

/-- `HandleEpochStart`. -/
def handleEpochStart (m : EpochStart) : RHandler Unit := do
  let s ← get
  when (s.status = .epochChange) (insertEpochStart E m)

/-- `HandleViewStart`. -/
def handleViewStart (m : ViewStart) : RHandler Unit := do
  let s ← get
  when (s.status = .epochChange) (sendEpochStart E m.viewNumber)

/-- `InsertViewChange`. -/
def insertViewChange (m : ViewChange) : RHandler Unit := do
  modify fun s => { s with viewChangeSet := s.viewChangeSet.emplace m.replicaIndex m }
  let s ← get
  if s.viewChangeSet.size < E.quorum then pure ()
  else do
    emit (.toAll (.viewStart
      { viewNumber := m.nextViewNumber, highMessageNumber := s.lastExecuted % 2 ^ 32 }))
    sendEpochStart E m.nextViewNumber

/-- `HandleViewChange`. -/
def handleViewChange (m : ViewChange) : RHandler Unit := do
  let s ← get
  when (s.status = .epochChange) (insertViewChange E m)

/-- `StartEpochChange`. -/
def startEpochChange (nextSessionNumber : Nat) : RHandler Unit := do
  modify fun s => { s with status := .epochChange, tomBuffer := StdMap.empty }
  let s ← get
  let m : ViewChange :=
    { viewNumber := s.sessionNumber % 2 ^ 32, nextViewNumber := nextSessionNumber
      highMessageNumber := s.lastExecuted % 2 ^ 32, replicaIndex := E.replicaIdx }
  emit (.toReplica 0 (.viewChange m))
  when (E.replicaIdx = 0) (insertViewChange E m)

/-! ### Requests and queries -/

/-- The packet is buffered, unless one with its number is. -/
def Replica.buffer (s : Replica) (p : Packet) : Replica :=
  { s with tomBuffer := s.tomBuffer.emplace p.number p }

/-- The first packet tells the session, and where its numbers begin; the subtraction is that of `uint32_t`. -/
def Replica.join (s : Replica) (p : Packet) : Replica :=
  if s.sessionNumber = 0 then
    { s with sessionNumber := p.sessionNumber, offset := ((p.number + (2 ^ 32 - 1)) % 2 ^ 32 : Nat) }
  else s

/-- `HandleRequest`, for a packet of the session. -/
def handleInSession (remote : Addr) (p : Packet) : RHandler Unit := do
  let s ← get
  if (p.number : Int) ≤ s.lastNumber then pure ()
  else do
    when (s.addressTable p.request.clientid = none ∧ p.number ≠ s.nextQueryNumber) <|
      modify fun s => { s with
        addressTable := Function.update s.addressTable p.request.clientid (some remote) }
    if (p.number : Int) ≠ s.lastNumber + 1 then modify fun s => s.buffer p
    else executeOne E p
    tryExecute E

/-- `HandleRequest`. -/
def handleRequest (remote : Addr) (p : Packet) : RHandler Unit := do
  let s ← get
  if s.status ≠ .normal then modify fun s => s.buffer p
  else do
    modify fun s => s.join p
    let s ← get
    if s.sessionNumber ≠ p.sessionNumber then do
      startEpochChange E p.sessionNumber
      modify fun s => s.buffer p
    else handleInSession E remote p

/-- `HandleQueryMessage`. -/
def handleQueryMessage (remote : Addr) (m : QueryMessage) : RHandler Unit := do
  let s ← get
  whenSome (s.queryBuffer.find? m.messageNumber) fun p => emit (.toAddr remote (.request p))

/-- `ReceiveMessage`. -/
def receiveMessage (remote : Addr) : Message → RHandler Unit
  | .request p => do
    modify fun s => { s with queryBuffer := s.queryBuffer.insert p.number p }
    handleRequest E remote p
  | .viewChange m => handleViewChange E m
  | .viewStart m => handleViewStart E m
  | .epochStart m => handleEpochStart E m
  | .query m => handleQueryMessage remote m

end Dsnet.TOMBFT
