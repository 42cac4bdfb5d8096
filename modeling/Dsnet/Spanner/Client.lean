import Dsnet.Common.MessageSet
import Dsnet.Spanner.Server

/-! `transaction/spanner/client.{h,cc}`: the client coordinates a two-phase commit. It has every shard of a
    transaction PREPARE, and asks again, under a new request number, when one could not get all its locks;
    then it has all of them COMMIT or ABORT. It goes on when each has replied.

    The clients keep what they have been asked to do and what they have answered. A failed `ASSERT` stops
    the process. -/

namespace Dsnet.Spanner
open Handler Transaction

/-- `Fate`. -/
inductive Fate where
  | commit | abort | retry | acked
  deriving DecidableEq, Repr

/-- `PendingRequest`. -/
structure PendingRequest where
  txnid : Nat
  clientReqId : Nat
  requests : StdMap Nat String
  replies : StdMap Nat String
  type : RequestType
  numRetries : Nat

/-- A call of the continuation. -/
structure Continued where
  txnid : Nat
  requests : StdMap Nat String
  replies : StdMap Nat String
  commit : Bool

/-- The members of `SpannerClient`, with the transactions that it has been called with and those it has
    continued. `requestTimeout` tells whether the timer runs. -/
structure Client where
  txnid : Nat
  lastReqId : Nat
  pendingRequest : Option PendingRequest
  requestTimeout : Bool
  replySet : MessageSet Nat ReplyMessage
  invocations : List (Nat × StdMap Nat String)
  continued : List Continued

/-- `MAX_RETRIES`. -/
def maxRetries : Nat := 5

/-- The arguments of the constructor. -/
structure ClientEnv where
  config : Configuration
  clientid : Nat

abbrev ClientHandler := Handler Client Output

variable (E : ClientEnv)

/-- The request message for a shard: only a PREPARE has the text of the transaction. -/
def PendingRequest.message (req : PendingRequest) (clientid : Nat) (txn : String) : Message :=
  .request { txnid := req.txnid, type := req.type }
    { op := if req.type = .prepare then txn else "", clientid := clientid, clientreqid := req.clientReqId }

/-- `SendRequest`. -/
def sendRequest : ClientHandler Unit := do
  let s ← get
  let req ← ofOption s.pendingRequest
  forEach req.requests.toList fun kv =>
    emit ⟨group E.config.n kv.1, req.message E.clientid kv.2⟩
  modify fun s => { s with requestTimeout := true }

/-- `Invoke`. -/
def invoke (requests : StdMap Nat String) : ClientHandler Unit := do
  let s ← get
  assert (s.pendingRequest.isNone = true)
  modify fun s => { s with
    lastReqId := s.lastReqId + 1, txnid := s.txnid + 1
    invocations := s.invocations ++ [(s.txnid + 1, requests)] }
  let s ← get
  let req : PendingRequest :=
    { txnid := s.txnid, clientReqId := s.lastReqId, requests := requests, replies := StdMap.empty
      type := .prepare, numRetries := 0 }
  modify fun s => { s with
    pendingRequest := some req
    replySet := s.replySet.setShardRequired s.lastReqId requests.size }
  sendRequest E

/-- `CompleteOperation`, when all shards have acknowledged the COMMIT or ABORT. -/
def finish (req : PendingRequest) : ClientHandler Unit := do
  assert (req.type = .commit ∨ req.type = .abort)
  modify fun s => { s with
    pendingRequest := none
    continued := s.continued ++ [⟨req.txnid, req.requests, req.replies, req.type = .commit⟩] }

/-- `CompleteOperation`, when all shards have replied to a PREPARE: the next request for them. -/
def nextRequest (req : PendingRequest) (fate : Fate) : PendingRequest :=
  if fate = .retry ∧ req.numRetries + 1 < maxRetries then
    { req with numRetries := req.numRetries + 1 }
  else { req with
    numRetries := if fate = .retry then req.numRetries + 1 else req.numRetries
    type := if fate = .commit then .commit else .abort }

/-- `CompleteOperation`. -/
def completeOperation (fate : Fate) : ClientHandler Unit := do
  modify fun s => { s with requestTimeout := false, replySet := s.replySet.clear }
  let s ← get
  let req ← ofOption s.pendingRequest
  if fate = .acked then finish req
  else do
    assert (req.type = .prepare)
    modify fun s => { s with lastReqId := s.lastReqId + 1 }
    modify fun s => { s with
      pendingRequest := some (nextRequest { req with clientReqId := s.lastReqId } fate)
      replySet := s.replySet.setShardRequired s.lastReqId req.requests.size }
    sendRequest E

/-- The loop of `HandleReply` over the replies of the shards. -/
def tally : List (Nat × StdMap Nat ReplyMessage) → Fate → ClientHandler Fate
  | [], fate => pure fate
  | kv :: kvs, fate => do
    assert (kv.2.size = 1)
    let msg ← ofOption (kv.2.find? 0)
    let s ← get
    let req ← ofOption s.pendingRequest
    if msg.type = .ack then do
      assert (req.type = .commit ∨ req.type = .abort)
      tally kvs .acked
    else do
      assert (req.type = .prepare)
      modify fun s => { s with
        pendingRequest := some { req with replies := req.replies.insert kv.1 msg.reply } }
      if msg.type = .fail then pure .abort
      else tally kvs (if msg.type = .retry then .retry else fate)

/-- `HandleReply`. -/
def handleReply (msg : ReplyMessage) : ClientHandler Unit := do
  let s ← get
  whenSome s.pendingRequest fun req =>
    when (msg.clientreqid = req.clientReqId) do
      modify fun s => { s with replySet := s.replySet.add msg.clientreqid msg.shardNum 0 msg }
      let s ← get
      whenSome (s.replySet.checkForQuorum msg.clientreqid) fun msgs => do
        let fate ← tally msgs.toList .commit
        completeOperation E fate

/-- `ReceiveMessage`; what is not a reply does not parse. -/
def clientReceive : Message → ClientHandler Unit
  | .reply msg => handleReply E msg
  | _ => abort

/-- The client as it is constructed. -/
def Client.initial (clientid : Nat) : Client :=
  { txnid := clientid / 10000 * 10000, lastReqId := 0, pendingRequest := none, requestTimeout := false
    replySet := MessageSet.new 1, invocations := [], continued := [] }

/-! ### The system -/

/-- The shards and their clients: the configuration, and the applications of the replicas. -/
structure Shards (σ : Type) where
  config : Configuration
  clients : List Nat
  app : Nat → Nat → TxnServer σ

variable {σ : Type}

/-- The environment of replica `i` of shard `q`. -/
def Shards.serverEnv (S : Shards σ) (q i : Nat) : ServerEnv σ :=
  { config := S.config, groupIdx := q, replicaIdx := i, app := S.app q i }

/-- The environment of client `c`. -/
def Shards.clientEnv (S : Shards σ) (c : Nat) : ClientEnv := { config := S.config, clientid := c }

/-- What a process can do by itself: a client is called, or a timer fires. -/
inductive Action where
  | invoke (requests : StdMap Nat String)
  | timeout

/-- The state of a process. -/
abbrev StateOf (σ : Type) : Node → Type
  | .client _ => Client
  | .replica _ _ => Server σ

/-- The protocol. -/
def Shards.protocol (S : Shards σ) : Cluster.Protocol Node (StateOf σ) Message Action where
  member
    | .client c => decide (c ∈ S.clients)
    | .replica q i => decide (q < S.config.g ∧ i < S.config.n)
  init
    | .client c => Client.initial c
    | .replica q i => Server.initial (S.serverEnv q i)
  receive
    | .client c => fun _ => clientReceive (S.clientEnv c)
    | .replica q i => serverReceive (S.serverEnv q i)
  act
    | .client c => fun k s =>
      match k with
      | .invoke requests => some (invoke (S.clientEnv c) requests)
      | .timeout => if s.requestTimeout then some (sendRequest (S.clientEnv c)) else none
    | .replica q i => fun k s =>
      match k with
      | .invoke _ => none
      | .timeout => if s.resendPrepareTimeout then some (sendPrepare (S.serverEnv q i)) else none

abbrev Sys (σ : Type) := Cluster.Sys Node (StateOf σ) Message

abbrev Event := Cluster.Event Node Action

/-- The runs of the clients and the shards. -/
abbrev system (S : Shards σ) : System (Sys σ) Event := Cluster.system S.protocol

end Dsnet.Spanner
