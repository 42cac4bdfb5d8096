import Mathlib.Data.String.Basic
import Dsnet.Tapir.Server

/-! `transaction/tapir/irclient.{h,cc}`: the client of one TAPIR shard, as `TapirClient` uses it. It has a
    PREPARE decided by consensus: by what a super quorum of replicas answer alike (the fast path), or
    by `PrepareDecide` from the answers it has (the slow path); and it tells the replicas the result.
    COMMITs and ABORTs are inconsistent operations, which have no result.

    `TapirClient` calls `Prepare` and `CommitAbort` when the promise of the `Prepare` before is replied
    to, and `Prepare` waits for the promise of the `CommitAbort` before. It commits only what the last
    `Prepare` was replied OK to. Sending always succeeds here.
    A failed `ASSERT` stops the process, and so does the use of a null pointer or of a request as one
    of the other kind. -/

namespace Dsnet.Tapir
open Handler Transaction

/-- The promise of a call of `Prepare`: the number of the call, and the transaction. -/
structure Promise where
  call : Nat
  txnid : Nat
  deriving DecidableEq

/-- What the timer of a request does when it fires. -/
inductive TimerAction where
  | resendInconsistent | consensusSlowPath | resendRequestAndConfirmation | resendConfirmation
  deriving DecidableEq

/-- `PendingConsensusRequest` without what it has in common with the other kind. -/
structure ConsensusPart where
  consensusReplyQuorum : QuorumSet (Nat × Nat) String
  decideResult : String

/-- `PendingRequest`, with what is particular to each kind. The replies are counted by what they say:
    none but their results are looked at. The timer is `none` when it is stopped. -/
structure PendingRequest where
  request : String
  clientReqId : Nat
  continuationInvoked : Bool
  timer : Option TimerAction
  confirmQuorum : QuorumSet (Nat × Nat) Unit
  kind : ConsensusPart ⊕ QuorumSet (Nat × Nat) Unit

/-- The members of `IRClient`, with what its promises have been replied to and the results with which the
    continuations of consensus operations have been invoked. `blockingPrepare` tells whether its
    promise has been replied to. -/
structure IRClient where
  view : Nat
  lastReqId : Nat
  pendingReqs : Nat → Option PendingRequest
  waiting : Option Promise
  blockingPrepare : Option Bool
  calls : Nat
  delivered : List (Promise × Status × String)
  continued : List (Nat × String)

/-- The arguments of the constructor; the replicas of the shard are those of the configuration. -/
structure ClientEnv where
  wire : Wire
  config : Configuration
  clientid : Nat

abbrev ClientHandler := Handler IRClient Output

variable (E : ClientEnv)

/-- `SendMessageToGroup`. -/
def ClientEnv.toGroup (m : Message) : Output := ⟨(List.range E.config.n).map .replica, m⟩

/-- `pendingReqs[reqId] = req`. -/
def IRClient.setReq (s : IRClient) (reqId : Nat) (req : Option PendingRequest) : IRClient :=
  { s with pendingReqs := Function.update s.pendingReqs reqId req }

@[simp] theorem IRClient.pendingReqs_setReq (s : IRClient) (reqId : Nat) (req : Option PendingRequest) :
    (s.setReq reqId req).pendingReqs = Function.update s.pendingReqs reqId req := rfl

@[simp] theorem IRClient.setReq_setReq (s : IRClient) (reqId : Nat) (req req' : Option PendingRequest) :
    (s.setReq reqId req).setReq reqId req' = s.setReq reqId req' := by
  simp [IRClient.setReq]

theorem IRClient.setReq_self {s : IRClient} {reqId : Nat} {req : PendingRequest}
    (h : s.pendingReqs reqId = some req) : s.setReq reqId (some req) = s := by
  rw [setReq, ← h, Function.update_eq_self]

/-- The operation with which the client proposes a request. -/
def requestOf (req : PendingRequest) : Request :=
  { op := req.request, clientid := E.clientid, clientreqid := req.clientReqId }

/-- The size of a super quorum. -/
def ClientEnv.superQuorum : Nat := E.config.quorumSize + (E.config.quorumSize + 1) / 2

/-! ### Invoking operations -/

/-- `SendInconsistent`. -/
def sendInconsistent (req : PendingRequest) : ClientHandler Unit := do
  emit (E.toGroup (.proposeInconsistent (requestOf E req)))
  modify (·.setReq req.clientReqId (some { req with timer := some .resendInconsistent }))

/-- `InvokeInconsistent`, with `CommitAbortCallback`. -/
def invokeInconsistent (request : String) : ClientHandler Unit := do
  modify fun s => { s with lastReqId := s.lastReqId + 1 }
  let s ← get
  let req : PendingRequest :=
    { request := request, clientReqId := s.lastReqId, continuationInvoked := false, timer := none
      confirmQuorum := QuorumSet.new E.config.quorumSize
      kind := .inr (QuorumSet.new E.config.quorumSize) }
  modify (·.setReq s.lastReqId (some req))
  sendInconsistent E req

/-- `InvokeConsensus`, with `PrepareDecide` and `PrepareCallback`. -/
def invokeConsensus (request : String) : ClientHandler Unit := do
  modify fun s => { s with lastReqId := s.lastReqId + 1 }
  let s ← get
  let req : PendingRequest :=
    { request := request, clientReqId := s.lastReqId, continuationInvoked := false
      timer := some .consensusSlowPath
      confirmQuorum := QuorumSet.new E.config.quorumSize
      kind := .inl { consensusReplyQuorum := QuorumSet.new E.superQuorum, decideResult := "" } }
  emit (E.toGroup (.proposeConsensus (requestOf E req)))
  modify (·.setReq s.lastReqId (some req))

/-- `Prepare`. -/
def prepare (txnid : Nat) (txn : String) : ClientHandler Unit := do
  modify fun s => { s with
    blockingPrepare := none, calls := s.calls + 1, waiting := some ⟨s.calls + 1, txnid⟩ }
  invokeConsensus E (E.wire.txn.serialize { txnid := txnid, op := .prepare, txn := txn })

/-- `CommitAbort`. -/
def commitAbort (txnid : Nat) (commit : Bool) : ClientHandler Unit := do
  modify fun s => { s with blockingPrepare := some false }
  invokeInconsistent E
    (E.wire.txn.serialize { txnid := txnid, op := if commit then .commit else .abort, txn := "" })

/-! ### Callbacks -/

/-- `PrepareCallback`, for the request that is numbered `reqId`. -/
def prepareCallback (reqId : Nat) (reply : String) : ClientHandler Unit := do
  modify fun s => { s with continued := s.continued ++ [(reqId, reply)] }
  let s ← get
  whenSome s.waiting fun w =>
    let m := E.wire.reply.parse reply
    modify fun s => { s with
      waiting := none, delivered := s.delivered ++ [(w, m.status, m.reply.getD "")] }

/-- `CommitAbortCallback`. -/
def commitAbortCallback : ClientHandler Unit := do
  let s ← get
  assert (s.blockingPrepare.isSome = true)
  modify fun s => { s with blockingPrepare := some true, waiting := none }

/-- The loop of `PrepareDecide`: with how many results that say OK so far, and the last reply of them. -/
def decideLoop : List String → Nat → Option String → String
  | [], okCount, reply =>
    E.wire.reply.serialize
      { status := if okCount ≥ E.config.quorumSize then .ok else .retry, reply := reply }
  | s :: results, okCount, reply =>
    match (E.wire.reply.parse s).status with
    | .ok => decideLoop results (okCount + 1) (some ((E.wire.reply.parse s).reply.getD ""))
    | .failed => s
    | .retry => decideLoop results okCount reply

/-- `PrepareDecide`. -/
def prepareDecide (results : StdSet String) : String := decideLoop E results.toList 0 none

/-! ### The slow path -/

/-- The results that have been received. -/
def resultSet (msgs : StdMap Nat String) : StdSet String :=
  msgs.toList.foldl (fun set kv => set.insert kv.2) StdSet.empty

/-- `ConsensusSlowPath`. -/
def consensusSlowPath (reqId : Nat) : ClientHandler Unit := do
  let s ← get
  let req ← ofOption (s.pendingReqs reqId)
  match req.kind with
  | .inr _ => abort
  | .inl part => do
    let result := prepareDecide E (resultSet (part.consensusReplyQuorum.messages (s.view, reqId)))
    emit (E.toGroup (.finalizeConsensus (E.clientid, req.clientReqId) result))
    modify (·.setReq reqId (some { req with
      timer := some .resendRequestAndConfirmation, kind := .inl { part with decideResult := result } }))

/-- `ResendConfirmation`. -/
def resendConfirmation (reqId : Nat) : ClientHandler Unit := do
  let s ← get
  whenSome (s.pendingReqs reqId) fun req =>
    match req.kind with
    | .inl part =>
      emit (E.toGroup (.finalizeConsensus (E.clientid, req.clientReqId) part.decideResult))
    | .inr _ => emit (E.toGroup (.finalizeInconsistent (E.clientid, req.clientReqId)))

/-- What happens when the timer of a request fires. -/
def fire (reqId : Nat) : TimerAction → ClientHandler Unit
  | .resendInconsistent => do
    let s ← get
    let req ← ofOption (s.pendingReqs reqId)
    sendInconsistent E req
  | .consensusSlowPath => consensusSlowPath E reqId
  | .resendRequestAndConfirmation => do
    let s ← get
    let req ← ofOption (s.pendingReqs reqId)
    emit (E.toGroup (.proposeConsensus (requestOf E req)))
    resendConfirmation E reqId
  | .resendConfirmation => resendConfirmation E reqId

/-! ### Replies -/

/-- `HandleInconsistentReply`. -/
def handleInconsistentReply (view replicaIdx : Nat) (opid : OpId) : ClientHandler Unit := do
  let s ← get
  whenSome (s.pendingReqs opid.2) fun req =>
    match req.kind with
    | .inl _ => abort
    | .inr quorum => do
      let q := quorum.add (view, opid.2) replicaIdx ()
      modify (·.setReq opid.2 (some { req with kind := .inr q }))
      whenSome (q.checkForQuorum (view, opid.2)) fun _ =>
        when (req.continuationInvoked = false) do
          emit (E.toGroup (.finalizeInconsistent opid))
          commitAbortCallback
          modify (·.setReq opid.2 (some { req with
            kind := .inr q, timer := some .resendConfirmation, continuationInvoked := true }))

/-- The result that a super quorum of the replies have in common. -/
def matchingResult (msgs : StdMap Nat String) : Option String :=
  (resultSet msgs).toList.find? fun r =>
    decide (E.superQuorum ≤ msgs.toList.countP fun kv => kv.2 = r)

/-- `HandleConsensusReply`: the fast path. -/
def consensusFastPath (opid : OpId) (req : PendingRequest) (part : ConsensusPart) (result : String) :
    ClientHandler Unit := do
  emit (E.toGroup (.finalizeConsensus opid result))
  modify (·.setReq opid.2 (some { req with
    timer := some .resendConfirmation, kind := .inl { part with decideResult := result }
    continuationInvoked := true }))
  when (req.continuationInvoked = false) (prepareCallback E opid.2 result)

/-- `HandleConsensusReply`. -/
def handleConsensusReply (view replicaIdx : Nat) (opid : OpId) (result : String) :
    ClientHandler Unit := do
  let s ← get
  whenSome (s.pendingReqs opid.2) fun req =>
    match req.kind with
    | .inr _ => abort
    | .inl part => do
      let part := { part with
        consensusReplyQuorum := part.consensusReplyQuorum.add (view, opid.2) replicaIdx result }
      modify (·.setReq opid.2 (some { req with kind := .inl part }))
      whenSome (part.consensusReplyQuorum.checkForQuorum (view, opid.2)) fun msgs =>
        match matchingResult E msgs with
        | some result => consensusFastPath E opid req part result
        | none => consensusSlowPath E opid.2

/-- `HandleConfirm`. -/
def handleConfirm (view replicaIdx : Nat) (opid : OpId) : ClientHandler Unit := do
  let s ← get
  whenSome (s.pendingReqs opid.2) fun req => do
    let q := req.confirmQuorum.add (view, opid.2) replicaIdx ()
    match q.checkForQuorum (view, opid.2) with
    | none => modify (·.setReq opid.2 (some { req with confirmQuorum := q }))
    | some _ => do
      modify (·.setReq opid.2 none)
      when (req.continuationInvoked = false) <|
        match req.kind with
        | .inl part => prepareCallback E opid.2 part.decideResult
        | .inr _ => abort

/-- `ReceiveMessage`; other messages make it panic. -/
def clientReceive : Message → ClientHandler Unit
  | .inconsistentReply view replicaIdx opid => handleInconsistentReply E view replicaIdx opid
  | .consensusReply view replicaIdx opid result => handleConsensusReply E view replicaIdx opid result
  | .confirm view replicaIdx opid => handleConfirm E view replicaIdx opid
  | _ => abort

/-- The client as it is constructed. -/
def IRClient.initial : IRClient :=
  { view := 0, lastReqId := 0, pendingReqs := fun _ => none, waiting := none, blockingPrepare := none
    calls := 0, delivered := [], continued := [] }

/-! ### The shard -/

/-- A shard: its configuration, the application of its replicas, and what the transactions ask of it. -/
structure Shard (σ : Type) where
  wire : Wire
  config : Configuration
  app : Nat → TxnServer σ
  txn : Nat → String

variable {σ : Type}

/-- The environment of replica `i`. -/
def Shard.serverEnv (S : Shard σ) (i : Nat) : ServerEnv σ :=
  { wire := S.wire, replicaIdx := i, app := S.app i }

/-- The environment of client `c`. -/
def Shard.clientEnv (S : Shard σ) (c : Nat) : ClientEnv :=
  { wire := S.wire, config := S.config, clientid := c }

/-- What a client can do by itself: the application calls it, or the timer of a request fires. -/
inductive Action where
  | prepare (txnid : Nat)
  | commitAbort (txnid : Nat) (commit : Bool)
  | timer (reqId : Nat)
  deriving DecidableEq

/-- The last `Prepare` was for this transaction, and OK if that is to commit. -/
def IRClient.decides (s : IRClient) (txnid : Nat) (commit : Bool) : Bool :=
  s.delivered.getLast?.any fun d => d.1.txnid = txnid && (!commit || d.2.1 = .ok)

/-- The handler of an action, if it is possible. -/
def Shard.act (S : Shard σ) (c : Nat) (s : IRClient) : Action → Option (ClientHandler Unit)
  | .prepare txnid =>
    if s.waiting = none ∧ s.blockingPrepare ≠ some false then
      some (Tapir.prepare (S.clientEnv c) txnid (S.txn txnid))
    else none
  | .commitAbort txnid commit =>
    if s.waiting = none ∧ s.blockingPrepare = none ∧ s.decides txnid commit = true then
      some (Tapir.commitAbort (S.clientEnv c) txnid commit)
    else none
  | .timer reqId =>
    (s.pendingReqs reqId).bind fun req => req.timer.map (fire (S.clientEnv c) reqId)

/-- The state of a process. -/
abbrev StateOf (σ : Type) : Node → Type
  | .client _ => IRClient
  | .replica _ => Server σ

/-- The protocol of the shard. -/
def Shard.protocol (S : Shard σ) : Cluster.Protocol Node (StateOf σ) Message Action where
  member
    | .client _ => true
    | .replica i => decide (i < S.config.n)
  init
    | .client _ => IRClient.initial
    | .replica i => Server.initial (S.serverEnv i)
  receive
    | .client c => fun _ => clientReceive (S.clientEnv c)
    | .replica i => serverReceive (S.serverEnv i)
  act
    | .client c => fun k s => S.act c s k
    | .replica _ => fun _ _ => none

abbrev Sys (σ : Type) := Cluster.Sys Node (StateOf σ) Message

abbrev Event := Cluster.Event Node Action

/-- The runs of the shard. -/
abbrev system (S : Shard σ) : System (Sys σ) Event := Cluster.system S.protocol

end Dsnet.Tapir
