import Dsnet.Granola.Server

/-! `transaction/granola/client.{h,cc}`: the client sends a transaction to its shards, and waits until each
    has replied. When they reply CONFLICT it asks again, under a new request number, a few times.

    The clients keep what they have been asked to do and what they have answered. A failed `ASSERT` stops
    the process. -/

namespace Dsnet.Granola
open Handler Transaction

/-- `clientarg_t`. -/
structure ClientArg where
  indep : Bool
  ro : Bool
  deriving DecidableEq

/-- `PendingRequest`. -/
structure PendingRequest where
  txnid : Nat
  clientReqId : Nat
  requests : StdMap Nat String
  replies : StdMap Nat String
  arg : ClientArg
  numRetries : Nat

/-- A call of the continuation. -/
structure Continued where
  txnid : Nat
  requests : StdMap Nat String
  replies : StdMap Nat String
  commit : Bool

/-- The members of `GranolaClient`, with the transactions that it has been called with and those it has
    continued. `requestTimeout` tells whether the timer runs. -/
structure Client where
  txnid : Nat
  lastReqId : Nat
  pendingRequest : Option PendingRequest
  requestTimeout : Bool
  replySet : MessageSet Nat ReplyMessage
  invocations : List (Nat × StdMap Nat String)
  continued : List Continued

/-- `MAX_RETRIES`. -/
def maxRetries : Nat := 5

/-- The arguments of the constructor. -/
structure ClientEnv where
  config : Configuration
  clientid : Nat

abbrev ClientHandler := Handler Client Output

variable (E : ClientEnv)

/-- The request message for a shard with this text: it lists all the shards. -/
def PendingRequest.message (req : PendingRequest) (clientid : Nat) (txn : String) : Message :=
  .request req.txnid req.arg.indep req.arg.ro
    { op := txn, clientid := clientid, clientreqid := req.clientReqId
      ops := req.requests.toList.map fun kv => { shard := kv.1, op := "" } }

/-- `SendRequest`. -/
def sendRequest : ClientHandler Unit := do
  let s ← get
  let req ← ofOption s.pendingRequest
  forEach req.requests.toList fun kv =>
    emit ⟨group E.config.n kv.1, req.message E.clientid kv.2⟩
  modify fun s => { s with requestTimeout := true }

/-- `Invoke`. -/
def invoke (requests : StdMap Nat String) (arg : ClientArg) : ClientHandler Unit := do
  let s ← get
  assert (s.pendingRequest.isNone = true)
  modify fun s => { s with
    lastReqId := s.lastReqId + 1, txnid := s.txnid + 1
    invocations := s.invocations ++ [(s.txnid + 1, requests)] }
  let s ← get
  let req : PendingRequest :=
    { txnid := s.txnid, clientReqId := s.lastReqId, requests := requests, replies := StdMap.empty
      arg := arg, numRetries := 0 }
  modify fun s => { s with
    pendingRequest := some req
    replySet := s.replySet.setShardRequired s.lastReqId requests.size }
  sendRequest E

/-- `RetryTransaction`, of a request that is asked again. -/
def retryTransaction (req : PendingRequest) : ClientHandler Unit := do
  modify fun s => { s with lastReqId := s.lastReqId + 1 }
  modify fun s => { s with
    pendingRequest := some { req with replies := StdMap.empty, clientReqId := s.lastReqId }
    replySet := s.replySet.setShardRequired s.lastReqId req.requests.size }
  sendRequest E

/-- `CompleteOperation`: the transaction is over. After too many conflicts it just counts as aborted. -/
def finish (req : PendingRequest) (status : Status) : ClientHandler Unit := do
  modify fun s => { s with pendingRequest := none }
  assert (status = .commit ∨ status = .abort)
  modify fun s => { s with
    continued := s.continued ++ [⟨req.txnid, req.requests, req.replies, status = .commit⟩] }

/-- `CompleteOperation`. -/
def completeOperation (status : Status) : ClientHandler Unit := do
  modify fun s => { s with requestTimeout := false, replySet := s.replySet.clear }
  let s ← get
  let req ← ofOption s.pendingRequest
  if status = .conflict then
    let req := { req with numRetries := req.numRetries + 1 }
    if req.numRetries < maxRetries then retryTransaction E req
    else finish req .abort
  else finish req status

/-- The loop of `HandleReply` over the replies of the shards, which all have to have this status. -/
def fillReplies (status : Status) : List (Nat × StdMap Nat ReplyMessage) → ClientHandler Unit
  | [] => pure ()
  | kv :: kvs => do
    let s ← get
    let req ← ofOption s.pendingRequest
    assert ((req.requests.find? kv.1).isSome = true)
    assert (kv.2.size = 1)
    let msg ← ofOption (kv.2.find? 0)
    assert (msg.status = status)
    modify fun s => { s with
      pendingRequest := some { req with replies := req.replies.insert kv.1 msg.reply } }
    fillReplies status kvs

/-- `HandleReply`, with the replies of enough shards. -/
def handleQuorum (msgs : StdMap Nat (StdMap Nat ReplyMessage)) : ClientHandler Unit := do
  let s ← get
  let req ← ofOption s.pendingRequest
  assert (msgs.size = req.requests.size)
  let first ← ofOption (msgs.toList.head?.bind fun kv => kv.2.find? 0)
  fillReplies first.status msgs.toList
  let s ← get
  let req ← ofOption s.pendingRequest
  assert (req.requests.size = req.replies.size)
  completeOperation E first.status

/-- `HandleReply`. -/
def handleReply (msg : ReplyMessage) : ClientHandler Unit := do
  let s ← get
  whenSome s.pendingRequest fun req =>
    when (msg.clientreqid = req.clientReqId) do
      modify fun s => { s with replySet := s.replySet.add msg.clientreqid msg.shardNum 0 msg }
      let s ← get
      whenSome (s.replySet.checkForQuorum msg.clientreqid) (handleQuorum E)

/-- `ReceiveMessage`; what is not a reply does not parse. -/
def clientReceive : Message → ClientHandler Unit
  | .reply msg => handleReply E msg
  | _ => abort

/-- The client as it is constructed. -/
def Client.initial (clientid : Nat) : Client :=
  { txnid := clientid / 10000 * 10000, lastReqId := 0, pendingRequest := none, requestTimeout := false
    replySet := MessageSet.new 1, invocations := [], continued := [] }

/-! ### The system -/

/-- The shards and their clients: the configuration, the mode of the servers, and the applications of the
    replicas. -/
structure Shards (σ : Type) where
  config : Configuration
  clients : List Nat
  locking : Bool
  app : Nat → Nat → TxnServer σ

variable {σ : Type}

/-- The environment of replica `i` of shard `q`. -/
def Shards.serverEnv (S : Shards σ) (q i : Nat) : ServerEnv σ :=
  { config := S.config, groupIdx := q, replicaIdx := i, locking := S.locking, app := S.app q i }

/-- The environment of client `c`. -/
def Shards.clientEnv (S : Shards σ) (c : Nat) : ClientEnv := { config := S.config, clientid := c }

/-- What a process can do by itself: a client is called, or a timer fires. -/
inductive Action where
  | invoke (requests : StdMap Nat String) (arg : ClientArg)
  | timeout
  | voteTimeout (opnum : Nat)

/-- The state of a process. -/
abbrev StateOf (σ : Type) : Node → Type
  | .client _ => Client
  | .replica _ _ => Server σ

/-- The protocol. -/
def Shards.protocol (S : Shards σ) : Cluster.Protocol Node (StateOf σ) Message Action where
  member
    | .client c => decide (c ∈ S.clients)
    | .replica q i => decide (q < S.config.g ∧ i < S.config.n)
  init
    | .client c => Client.initial c
    | .replica q i => Server.initial (S.serverEnv q i)
  receive
    | .client c => fun _ => clientReceive (S.clientEnv c)
    | .replica q i => serverReceive (S.serverEnv q i)
  act
    | .client c => fun k s =>
      match k with
      | .invoke requests arg => some (invoke (S.clientEnv c) requests arg)
      | .timeout => if s.requestTimeout then some (sendRequest (S.clientEnv c)) else none
      | .voteTimeout _ => none
    | .replica q i => fun k s =>
      match k with
      | .invoke _ _ => none
      | .timeout => if s.resendPrepareTimeout then some (sendPrepare (S.serverEnv q i)) else none
      | .voteTimeout opnum =>
        if s.voteTimeouts opnum then some (sendVoteRequest (S.serverEnv q i) opnum) else none

abbrev Sys (σ : Type) := Cluster.Sys Node (StateOf σ) Message

abbrev Event := Cluster.Event Node Action

/-- The runs of the clients and the shards. -/
abbrev system (S : Shards σ) : System (Sys σ) Event := Cluster.system S.protocol

end Dsnet.Granola
