import Dsnet.Lib.Frame
import Dsnet.Lib.Run
import Dsnet.Common.Quorum
import Dsnet.NOPaxos.Message

/-! `replication/nopaxos/client.{h,cc}`: the client of NOPaxos. It hands a request to the sequencer and counts
    the replies of the replicas; a later reply of a replica takes the place of its earlier one. The request is
    completed when the leader of the latest view and enough others have the same slot for it.

    The continuation is an output here. What it calls, such as `Invoke`, is an event of its own: no reply is
    handled before the handler that calls the continuation has returned. -/

namespace Dsnet.NOPaxos.Client
open Handler

/-- `NOPaxosClient::PendingRequest`, but for the continuations. -/
structure PendingRequest where
  request : String
  clientReqID : Nat
  deriving DecidableEq

/-- The members of `NOPaxosClient`. -/
structure NOPaxosClient where
  lastReqID : Nat
  pendingRequest : Option PendingRequest
  pendingUnloggedRequest : Option PendingRequest
  requestTimeout : Bool
  unloggedRequestTimeout : Bool
  replyQuorum : QuorumSet Nat ReplyMessage

/-- What the client hands to its transport and to the application. -/
inductive Output where
  | toSequencer (idx : Nat) (m : ToReplicaMessage)
  | toMulticast (m : ToReplicaMessage)
  | toReplica (idx : Nat) (m : ToReplicaMessage)
  | continuation (request reply : String)
  | unloggedContinuation (request reply : String)
  | timeoutContinuation (request : String)
  deriving DecidableEq

/-- The arguments of the constructor. -/
structure Env where
  config : Configuration
  numSequencers : Nat
  clientid : Nat
  nodeAddr : String

abbrev ClientHandler := Handler NOPaxosClient Output

variable (E : Env)

/-- `SendRequest`. -/
def sendRequest : ClientHandler Unit := do
  let s ← get
  let pending ← ofOption s.pendingRequest
  let m := ToReplicaMessage.request
    { msgnum := 0, sessnum := 0
      req :=
        { op := pending.request, clientid := E.clientid, clientreqid := pending.clientReqID
          clientaddr := E.nodeAddr } }
  emit (if E.numSequencers > 0 then .toSequencer 0 m else .toMulticast m)
  modify fun s => { s with requestTimeout := true }

/-- `Invoke`. -/
def invoke (request : String) : ClientHandler Unit := do
  let s ← get
  assert (s.pendingRequest.isNone = true)
  modify fun s => { s with
    lastReqID := s.lastReqID + 1, pendingRequest := some ⟨request, s.lastReqID + 1⟩ }
  sendRequest E

/-- `InvokeUnlogged`. -/
def invokeUnlogged (replicaIdx : Nat) (request : String) : ClientHandler Unit := do
  let s ← get
  assert (s.pendingUnloggedRequest.isNone = true)
  modify fun s => { s with
    lastReqID := s.lastReqID + 1, pendingUnloggedRequest := some ⟨request, s.lastReqID + 1⟩ }
  assert (s.unloggedRequestTimeout = false)
  modify fun s => { s with unloggedRequestTimeout := true }
  emit (.toReplica replicaIdx (.unloggedRequest request))

/-- `CompleteOperation`. -/
def completeOperation (msg : ReplyMessage) : ClientHandler Unit := do
  let reply ← ofOption msg.reply
  let s ← get
  let req ← ofOption s.pendingRequest
  modify fun s => { s with requestTimeout := false, pendingRequest := none }
  emit (.continuation req.request reply)
  modify fun s => { s with replyQuorum := s.replyQuorum.clear }

/-- `IsLeader`. -/
def isLeader (view replicaIdx : Nat) : Bool := E.config.getLeaderIndex view = replicaIdx

/-- The variables of the loop that looks for the leader's reply in the latest view; `leaderIdx` is only used
    while `hasLeader` is set. -/
structure LeaderSearch where
  latestView : Nat
  latestSessnum : Nat
  leaderIdx : Option Nat

/-- One round of the loop. -/
def LeaderSearch.next (l : LeaderSearch) (kv : Nat × ReplyMessage) : LeaderSearch :=
  let l := if kv.2.view > l.latestView then { l with latestView := kv.2.view, leaderIdx := none } else l
  let l := if kv.2.sessnum > l.latestSessnum then { l with latestSessnum := kv.2.sessnum } else l
  if isLeader E kv.2.view kv.1 ∧ kv.2.view = l.latestView ∧ kv.2.sessnum = l.latestSessnum
  then { l with leaderIdx := some kv.1 } else l

/-- The leader that has replied in the latest view and session. -/
def findLeader (msgs : List (Nat × ReplyMessage)) : Option Nat :=
  (msgs.foldl (LeaderSearch.next E) ⟨0, 0, none⟩).leaderIdx

/-- The two replies are for the same slot of the same view. -/
def SameSlot (m m' : ReplyMessage) : Prop :=
  m.view = m'.view ∧ m.sessnum = m'.sessnum ∧ m.opnum = m'.opnum

instance (m m' : ReplyMessage) : Decidable (SameSlot m m') := inferInstanceAs (Decidable (_ ∧ _))

/-- The key of `replyQuorum` for a request, which is an `int`. -/
def quorumKey (clientreqid : Nat) : Nat := clientreqid % 2 ^ 32

/-- `HandleReply`: as many replicas as are required have replied. -/
def handleQuorum (msgs : StdMap Nat ReplyMessage) : ClientHandler Unit :=
  whenSome (findLeader E msgs.toList) fun leaderIdx => do
    let leaderMessage ← ofOption (msgs.find? leaderIdx)
    let same := msgs.toList.filter fun kv => decide (SameSlot kv.2 leaderMessage)
    assert (∀ kv ∈ same, kv.2.clientreqid = leaderMessage.clientreqid)
    when (same.length ≥ E.config.quorumSize) (completeOperation leaderMessage)

/-- `HandleReply`. -/
def handleReply (msg : ReplyMessage) : ClientHandler Unit := do
  let s ← get
  match s.pendingRequest with
  | none => pure ()
  | some req => do
    if msg.clientreqid ≠ req.clientReqID then return
    let q := s.replyQuorum.add (quorumKey msg.clientreqid) msg.replicaidx msg
    modify fun s => { s with replyQuorum := q }
    whenSome (q.checkForQuorum (quorumKey msg.clientreqid)) (handleQuorum E)

/-- `HandleUnloggedReply`. -/
def handleUnloggedReply (reply : String) : ClientHandler Unit := do
  let s ← get
  whenSome s.pendingUnloggedRequest fun req => do
    modify fun s => { s with unloggedRequestTimeout := false, pendingUnloggedRequest := none }
    emit (.unloggedContinuation req.request reply)

/-- `UnloggedRequestTimeoutCallback`. -/
def unloggedRequestTimeoutCallback : ClientHandler Unit := do
  let s ← get
  let req ← ofOption s.pendingUnloggedRequest
  modify fun s => { s with unloggedRequestTimeout := false, pendingUnloggedRequest := none }
  emit (.timeoutContinuation req.request)

/-! ### Runs -/

/-- What can happen to the client next. -/
inductive Event where
  | invoke (request : String)
  | invokeUnlogged (replicaIdx : Nat) (request : String)
  | message (m : ToClientMessage)
  | requestTimeout
  | unloggedRequestTimeout

/-- The client, with the replies that have arrived since the last call of `Invoke`, and what it has handed out
    so far. -/
structure Sys where
  client : NOPaxosClient
  stopped : Bool
  arrived : List ReplyMessage
  outputs : List Output

/-- The client as it is constructed. -/
def Sys.initial : Sys where
  client :=
    { lastReqID := 0, pendingRequest := none, pendingUnloggedRequest := none
      requestTimeout := false, unloggedRequestTimeout := false
      replyQuorum := QuorumSet.new E.config.quorumSize }
  stopped := false
  arrived := []
  outputs := []

/-- The handler of an event, if it can happen. -/
def Event.handler (s : NOPaxosClient) : Event → Option (ClientHandler Unit)
  | .invoke request => some (Client.invoke E request)
  | .invokeUnlogged replicaIdx request => some (Client.invokeUnlogged replicaIdx request)
  | .message (.reply m) => some (handleReply E m)
  | .message (.unloggedReply reply) => some (handleUnloggedReply reply)
  | .requestTimeout => if s.requestTimeout = true then some (sendRequest E) else none
  | .unloggedRequestTimeout =>
    if s.unloggedRequestTimeout = true then some unloggedRequestTimeoutCallback else none

/-- What has arrived since the last call of `Invoke`, after the event. -/
def Event.arrive (arrived : List ReplyMessage) : Event → List ReplyMessage
  | .invoke _ => []
  | .message (.reply m) => arrived ++ [m]
  | _ => arrived

/-- The client has run a handler, with this outcome. -/
def Sys.after (s : Sys) (e : Event) (x : Option Unit × NOPaxosClient × List Output) : Sys where
  client := x.2.1
  stopped := x.1.isNone
  arrived := e.arrive s.arrived
  outputs := s.outputs ++ x.2.2

/-- One step. -/
def Sys.step (s : Sys) (e : Event) : Option Sys :=
  (e.handler E s.client).bind fun m => if s.stopped = false then some (s.after e (m s.client)) else none

/-- The runs of a client. -/
def system : System Sys Event := { init := Sys.initial E, step := Sys.step E }

end Dsnet.NOPaxos.Client
