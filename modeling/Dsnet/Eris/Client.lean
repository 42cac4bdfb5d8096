import Dsnet.Lib.Handler
import Dsnet.Lib.Run
import Dsnet.Common.Quorum
import Dsnet.Eris.Message

/-! `transaction/eris/client.{h,cc}`: the client of Eris. It sends a transaction to all the shards it
    takes part in, and waits for the replies of a quorum of each. A general transaction has two phases:
    the client first sends a PREPARE, and from what the leaders of the shards reply to it decides
    between a COMMIT and an ABORT, which it sends in the same way.

    Any reply may come at any time and any number of times, so the replicas and the network are left
    open here. A failed `ASSERT` and a `Panic` end the process. -/

namespace Dsnet.Eris.Client
open Handler

/-- `ReplyMessage`. -/
structure ReplyMessage where
  clientid : Nat
  clientreqid : Nat
  shardNum : Nat
  replicaNum : Nat
  view : ViewNum
  opNum : Nat
  commit : Option Nat := none
  reply : Option String := none
  deriving DecidableEq

/-- `commit()`: does the replica say that the transaction may commit? -/
def ReplyMessage.saysCommit (m : ReplyMessage) : Bool := m.commit.getD 0 ≠ 0

/-- `ErisClient::PendingRequest`, but for the continuation. -/
structure PendingRequest where
  msg : RequestMessage
  clientReqId : Nat
  txnType : RequestType
  commit : Bool
  requests : StdMap Nat String
  replies : StdMap Nat String
  hasReplies : StdMap Nat Bool
  groups : List Nat

/-- The members of `ErisClient`. -/
structure ErisClient where
  txnid : Nat
  lastReqId : Nat
  pendingRequest : Option PendingRequest
  requestTimeout : Bool
  replySet : StdMap Nat (QuorumSet Nat ReplyMessage)

/-- What the client hands to its transport and to the application: a request for some shards, or what
    it calls the continuation of a transaction with when the request `msg` is completed. -/
inductive Output where
  | send (msg : RequestMessage) (groups : List Nat)
  | continuation (msg : RequestMessage) (requests replies : StdMap Nat String) (commit : Bool)

/-- The arguments of the constructor. -/
structure Env where
  config : Configuration
  clientid : Nat
  nodeAddr : String

abbrev ClientHandler := Handler ErisClient Output

variable (E : Env)

/-- `SendRequest`. -/
def sendRequest : ClientHandler Unit := do
  let s ← get
  let req ← ofOption s.pendingRequest
  emit (.send req.msg req.groups)
  modify fun s => { s with requestTimeout := true }

/-- Is this the type of the first request of a transaction? -/
def RequestType.isFirst (t : RequestType) : Bool := t = .prepare ∨ t = .independent

/-- The request that `InvokeTxn` sends. Only the first one of a transaction has application level
    operations in it. -/
def requestMessage (txnid lastReqId : Nat) (requests : StdMap Nat String) (type : RequestType) :
    RequestMessage where
  txnid := txnid
  type := type
  request :=
    { op := "", clientid := E.clientid, clientreqid := lastReqId, clientaddr := E.nodeAddr
      ops := requests.toList.map fun kv =>
        { shard := kv.1, op := if RequestType.isFirst type then kv.2 else "" } }

/-- `InvokeTxn`. -/
def invokeTxn (requests replies : StdMap Nat String) (type : RequestType) : ClientHandler Unit := do
  let s ← get
  assert (s.pendingRequest.isNone = true)
  let txnid := if RequestType.isFirst type then s.txnid + 1 else s.txnid
  let req : PendingRequest :=
    { msg := requestMessage E txnid (s.lastReqId + 1) requests type
      clientReqId := s.lastReqId + 1, txnType := type, commit := true
      requests := requests, replies := replies, hasReplies := replies.map fun _ _ => false
      groups := requests.toList.map Prod.fst }
  modify fun s => { s with
    txnid := txnid
    lastReqId := s.lastReqId + 1
    replySet := requests.map fun _ _ => QuorumSet.new E.config.quorumSize
    pendingRequest := some req }
  sendRequest

/-- `Invoke`. -/
def invoke (requests : StdMap Nat String) (indep : Bool) : ClientHandler Unit := do
  let s ← get
  assert (s.pendingRequest.isNone = true)
  invokeTxn E requests (requests.map fun _ _ => "") (if indep then .independent else .prepare)

/-- `CompleteOperation`. -/
def completeOperation (req : PendingRequest) (commit : Bool) : ClientHandler Unit := do
  modify fun s => { s with
    requestTimeout := false, replySet := StdMap.empty, pendingRequest := none }
  if req.txnType = .prepare then
    invokeTxn E req.requests req.replies (if commit then .commit else .abort)
  else
    emit (.continuation req.msg req.requests req.replies (req.txnType ≠ .abort))

/-- `IsLeader`. -/
def isLeader (view replicaIdx : Nat) : Bool := E.config.getLeaderIndex view = replicaIdx

/-- The leader's reply in the latest view, among those of a quorum. -/
def latestLeader (msgs : List (Nat × ReplyMessage)) : Option ReplyMessage :=
  msgs.foldl (fun latest kv =>
    if isLeader E kv.2.view.viewNum kv.1 ∧ latest.elim 0 (·.view.viewNum) ≤ kv.2.view.viewNum
    then some kv.2 else latest) none

/-- What the leader of a shard has replied is the reply of the shard. -/
def PendingRequest.accept (req : PendingRequest) (shard : Nat) (leader : ReplyMessage) :
    PendingRequest :=
  { req with
    replies := if RequestType.isFirst req.txnType then
        req.replies.insert shard (leader.reply.getD "") else req.replies
    commit := if req.txnType = .prepare ∧ leader.saysCommit = false then false else req.commit
    hasReplies := req.hasReplies.insert shard true }

/-- `HandleReply`: a quorum has replied for the shard. -/
def handleQuorum (req : PendingRequest) (shard : Nat) (msgs : StdMap Nat ReplyMessage) :
    ClientHandler Unit :=
  whenSome (latestLeader E msgs.toList) fun leader => do
    assert (leader.commit.isSome = true)
    let matching := msgs.toList.countP fun kv => kv.2.view = leader.view
    when (matching ≥ E.config.quorumSize) <|
      modify fun s => { s with pendingRequest := some (req.accept shard leader) }

/-- `HandleReply`. -/
def handleReply (msg : ReplyMessage) : ClientHandler Unit := do
  let s ← get
  match s.pendingRequest with
  | none => pure ()
  | some req => do
    if msg.clientid ≠ E.clientid then return
    if msg.clientreqid ≠ req.clientReqId then return
    let q ← ofOption (s.replySet.find? msg.shardNum)
    when ((req.hasReplies.find? msg.shardNum).getD false = false) do
      let q := q.add msg.opNum msg.replicaNum msg
      modify fun s => { s with replySet := s.replySet.insert msg.shardNum q }
      whenSome (q.checkForQuorum msg.opNum) (handleQuorum E req msg.shardNum)
    let s ← get
    whenSome s.pendingRequest fun req =>
      when (req.hasReplies.toList.all (·.2) = true) (completeOperation E req req.commit)

/-! ### Runs -/

/-- What can happen to the client next: the application invokes a transaction, a reply arrives, or the
    timer fires. -/
inductive Event where
  | invoke (requests : StdMap Nat String) (indep : Bool)
  | reply (m : ReplyMessage)
  | timeout

/-- The client, with the replies it has received and what it has handed out so far. -/
structure Sys where
  client : ErisClient
  stopped : Bool
  received : List ReplyMessage
  outputs : List Output

/-- The client as it is constructed. -/
def Sys.initial : Sys where
  client :=
    { txnid := E.clientid / 10000 * 10000, lastReqId := 0, pendingRequest := none
      requestTimeout := false, replySet := StdMap.empty }
  stopped := false
  received := []
  outputs := []

/-- The handler of an event, if it can happen. -/
def Event.handler (s : Sys) : Event → Option (ClientHandler Unit)
  | .invoke requests indep => some (Client.invoke E requests indep)
  | .reply m => some (handleReply E m)
  | .timeout => if s.client.requestTimeout = true then some sendRequest else none

/-- The reply that an event brings. -/
def Event.replies : Event → List ReplyMessage
  | .reply m => [m]
  | _ => []

/-- The client has run a handler, with this outcome. -/
def Sys.after (s : Sys) (e : Event) (x : Option Unit × ErisClient × List Output) : Sys where
  client := x.2.1
  stopped := x.1.isNone
  received := s.received ++ e.replies
  outputs := s.outputs ++ x.2.2

/-- One step. -/
def Sys.step (s : Sys) (e : Event) : Option Sys :=
  (e.handler E s).bind fun m => if s.stopped = false then some (s.after e (m s.client)) else none

/-- The runs of a client. -/
def system : System Sys Event := { init := Sys.initial E, step := Sys.step E }

end Dsnet.Eris.Client
