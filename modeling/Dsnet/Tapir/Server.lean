import Dsnet.Lib.Cluster
import Dsnet.Common.Log
import Dsnet.Common.Quorum
import Dsnet.Transaction.TxnServer

/-! `transaction/tapir/tapir-proto.proto`, `record.{h,cc}` and `server.{h,cc}`: the replicas of a TAPIR
    shard. A replica records the operations it is asked for. It executes a PREPARE when that is proposed
    and answers with its own result, which its record does not keep: there the result is empty until the
    client finalizes the one it has decided on. A COMMIT or ABORT it executes when that is finalized.

    The view of a replica never changes. A failed `ASSERT` stops the process. -/

namespace Dsnet.Tapir
open Handler Transaction

/-! ### Messages -/

/-- `Transaction::Operation`. -/
inductive Operation where
  | unknown | prepare | commit | abort
  deriving DecidableEq, Repr

/-- `Transaction`. -/
structure Txn where
  txnid : Nat
  op : Operation
  txn : String
  deriving DecidableEq, Repr

/-- `ReplyMessage::Status`. -/
inductive Status where
  | ok | failed | retry
  deriving DecidableEq, Repr

/-- `ReplyMessage`. -/
structure ReplyMessage where
  status : Status
  reply : Option String := none
  deriving DecidableEq, Repr

/-- The serialization of the messages that are sent as `bytes`. What has no fields is parsed to a message of
    defaults. -/
structure Wire where
  txn : Codec Txn
  reply : Codec ReplyMessage
  parse_empty : reply.parse "" = { status := .ok }

/-- One serialization. -/
def Wire.plain : Wire where
  txn := ((Encoding.nat.prod (Encoding.nat.prod Encoding.string)).map
    (fun t : Txn => (t.txnid, match t.op with | .unknown => 0 | .prepare => 1 | .commit => 2 | .abort => 3, t.txn))
    (fun x => ⟨x.1, match x.2.1 with | 0 => .unknown | 1 => .prepare | 2 => .commit | _ => .abort, x.2.2⟩)
    (by rintro ⟨_, _ | _ | _ | _, _⟩ <;> rfl)).codec
  reply := ((Encoding.nat.prod Encoding.string.option).map
    (fun m : ReplyMessage => (match m.status with | .ok => 0 | .failed => 1 | .retry => 2, m.reply))
    (fun x => ⟨match x.1 with | 0 => .ok | 1 => .failed | _ => .retry, x.2⟩)
    (by rintro ⟨_ | _ | _, _⟩ <;> rfl)).codec
  parse_empty := by decide +kernel

/-- `opid_t`, and `OpID`: a client and the number of its request. -/
abbrev OpId := Nat × Nat

/-- `ToServerMessage` and `ToClientMessage`. -/
inductive Message where
  | proposeInconsistent (req : Request)
  | finalizeInconsistent (opid : OpId)
  | proposeConsensus (req : Request)
  | finalizeConsensus (opid : OpId) (result : String)
  | inconsistentReply (view replicaIdx : Nat) (opid : OpId)
  | consensusReply (view replicaIdx : Nat) (opid : OpId) (result : String)
  | confirm (view replicaIdx : Nat) (opid : OpId)
  deriving DecidableEq

/-- The processes of a shard. -/
inductive Node where
  | client (id : Nat)
  | replica (idx : Nat)
  deriving DecidableEq

/-- What a handler hands to the transport. -/
abbrev Output := Cluster.Send Node Message

/-! ### The record -/

/-- `RecordEntryState`. -/
inductive RecordEntryState where
  | tentative | finalized
  deriving DecidableEq, Repr

/-- `RecordEntry`; it is stored under its `opid`. -/
structure RecordEntry where
  view : Nat
  state : RecordEntryState
  request : Request
  result : String := ""
  deriving DecidableEq

/-- `Record`. -/
abbrev Record := OpId → Option RecordEntry

/-- The operation that a request is about. -/
def opidOf (req : Request) : OpId := (req.clientid, req.clientreqid)

/-! ### The replica -/

/-- A call of `ReplicaUpcall` with what it has returned. -/
structure Upcall where
  txn : String
  arg : TxnArg
  result : String
  ret : TxnRet

/-- The members of `TapirServer`, with the state of the application and the calls made into it. -/
structure Server (σ : Type) where
  view : Nat
  record : Record
  app : σ
  upcalls : List Upcall

/-- The arguments of the constructor. -/
structure ServerEnv (σ : Type) where
  wire : Wire
  replicaIdx : Nat
  app : TxnServer σ

abbrev ServerHandler (σ : Type) := Handler (Server σ) Output

variable {σ : Type} (E : ServerEnv σ)

/-- `Record::Add`. -/
def add (req : Request) : ServerHandler σ Unit := do
  let s ← get
  assert (s.record (opidOf req) = none)
  modify fun s => { s with
    record := Function.update s.record (opidOf req)
      (some { view := s.view, state := .tentative, request := req }) }

/-- `Record::Add` with a result, which is set in a copy of the entry that has been added. -/
def addWithResult (req : Request) (_result : String) : ServerHandler σ Unit := add req

/-- `app->ReplicaUpcall`. -/
def replicaUpcall (txn : String) (arg : TxnArg) : ServerHandler σ (String × TxnRet) := do
  let s ← get
  match E.app.invokeTransaction txn arg s.app with
  | (some (result, ret), app, _) => do
    modify fun s => { s with app := app, upcalls := s.upcalls ++ [⟨txn, arg, result, ret⟩] }
    return (result, ret)
  | (none, app, _) => do
    modify fun s => { s with app := app }
    abort

/-- `HandleProposeInconsistent`. -/
def handleProposeInconsistent (remote : Node) (req : Request) : ServerHandler σ Unit := do
  let s ← get
  match s.record (opidOf req) with
  | some entry => emit ⟨[remote], .inconsistentReply entry.view E.replicaIdx (opidOf req)⟩
  | none => do
    add req
    emit ⟨[remote], .inconsistentReply s.view E.replicaIdx (opidOf req)⟩

/-- What `HandleFinalizeInconsistent` calls the application with. -/
def inconsistentArg (t : Txn) : TxnArg :=
  { txnid := t.txnid, type := if t.op = .commit then .commit else .abort }

/-- `HandleFinalizeInconsistent`. -/
def handleFinalizeInconsistent (remote : Node) (opid : OpId) : ServerHandler σ Unit := do
  let s ← get
  whenSome (s.record opid) fun entry =>
    when (entry.state = .tentative) do
      modify fun s => { s with
        record := Function.update s.record opid (some { entry with state := .finalized }) }
      let t := E.wire.txn.parse entry.request.op
      assert (t.op = .commit ∨ t.op = .abort)
      let (_, ret) ← replicaUpcall E t.txn (inconsistentArg t)
      assert (ret.blocked = false)
      assert (ret.unblockedTxns.size = 0)
      assert (ret.commit = true)
      emit ⟨[remote], .confirm s.view E.replicaIdx opid⟩

/-- The result of a PREPARE. -/
def prepareResult (result : String) (ret : TxnRet) : String :=
  E.wire.reply.serialize
    { status := if ret.blocked then .retry else if ret.commit then .ok else .retry
      reply := some result }

/-- `HandleProposeConsensus`. -/
def handleProposeConsensus (remote : Node) (req : Request) : ServerHandler σ Unit := do
  let s ← get
  match s.record (opidOf req) with
  | some entry => emit ⟨[remote], .consensusReply entry.view E.replicaIdx (opidOf req) entry.result⟩
  | none => do
    let t := E.wire.txn.parse req.op
    assert (t.op = .prepare)
    let (result, ret) ← replicaUpcall E t.txn { txnid := t.txnid, type := .prepare }
    addWithResult req (prepareResult E result ret)
    emit ⟨[remote], .consensusReply s.view E.replicaIdx (opidOf req) (prepareResult E result ret)⟩

/-- `HandleFinalizeConsensus`. -/
def handleFinalizeConsensus (remote : Node) (opid : OpId) (result : String) : ServerHandler σ Unit := do
  let s ← get
  whenSome (s.record opid) fun entry => do
    modify fun s => { s with
      record := Function.update s.record opid (some { entry with state := .finalized, result := result }) }
    emit ⟨[remote], .confirm s.view E.replicaIdx opid⟩

/-- `ReceiveMessage`; other messages make it panic. -/
def serverReceive (remote : Node) : Message → ServerHandler σ Unit
  | .proposeInconsistent req => handleProposeInconsistent E remote req
  | .finalizeInconsistent opid => handleFinalizeInconsistent E remote opid
  | .proposeConsensus req => handleProposeConsensus E remote req
  | .finalizeConsensus opid result => handleFinalizeConsensus E remote opid result
  | _ => abort

/-- The replica as it is constructed. -/
def Server.initial : Server σ :=
  { view := 0, record := fun _ => none, app := E.app.init, upcalls := [] }

end Dsnet.Tapir
