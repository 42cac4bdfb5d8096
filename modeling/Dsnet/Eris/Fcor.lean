import Dsnet.Lib.Handler
import Dsnet.Lib.StdSet
import Dsnet.Common.Quorum
import Dsnet.Eris.Message
import Mathlib.Data.Prod.Lex
import Mathlib.Algebra.Group.Int.Defs

/-! `transaction/eris/fcor.{h,cc}`: the failure coordinator of Eris, an application of the
    replicated state machine. Each replica of it applies the committed operations through
    `ReplicaUpcall`.

    The maps of the source are functions where they are only looked up, and `StdMap` or `StdSet`
    where they are iterated or counted. Numbers that the source narrows are narrowed here: a
    transaction id keeps the low 32 bits of a message number, and shard, replica and view numbers
    become an `int`. A failed `ASSERT`, `Panic` and an exception all end the process. -/

namespace Dsnet.Eris
open Handler

/-- A number as an `int`. -/
def toInt (x : Nat) : Int :=
  if x % 2 ^ 32 < 2 ^ 31 then (x % 2 ^ 32 : Nat) else (x % 2 ^ 32 : Nat) - 2 ^ 32

/-- An `int` as a `uint32`. -/
def toUInt32 (i : Int) : Nat := (i % 2 ^ 32).toNat

/-- An `int` as a `view_t`. -/
def toView (i : Int) : Nat := (i % 2 ^ 64).toNat

/-! ### Identifiers -/

/-- `TxnID`. -/
structure TxnID where
  shardNum : Int
  msgNum : Nat
  epochNum : Nat
  deriving DecidableEq, Repr

namespace TxnID

/-- `TxnID(shardNum, msgNum, epochNum)`. -/
def of (shardNum msgNum epochNum : Nat) : TxnID :=
  { shardNum := toInt shardNum, msgNum := msgNum % 2 ^ 32, epochNum := epochNum % 2 ^ 32 }

/-- `TxnID(stn)`. -/
def ofStamp (stn : Stamp) : TxnID := of stn.shardNum stn.msgNum stn.sessNum

/-- The stamp of an id. -/
def stamp (id : TxnID) : Stamp :=
  { shardNum := toUInt32 id.shardNum, msgNum := id.msgNum, sessNum := id.epochNum }

/-- `operator<`: by epoch, then message number, then shard. -/
instance : LinearOrder TxnID :=
  LinearOrder.lift' (fun id => toLex (id.epochNum, toLex (id.msgNum, id.shardNum)))
    (by rintro ⟨s, m, e⟩ ⟨s', m', e'⟩ h; cases h; rfl)

end TxnID

/-- `TxnFate`. -/
inductive TxnFate where
  | dropped | found
  deriving DecidableEq, Repr

/-- `TxnResult`. -/
structure TxnResult where
  fate : TxnFate
  txn : RequestMessage
  deriving DecidableEq, Repr

/-- `TxnDropRecord`. -/
structure TxnDropRecord where
  shardNum : Int
  replicaNum : Int
  viewNum : Int
  deriving DecidableEq, Repr

/-- `operator<`: by shard, then view, then replica. -/
instance : LinearOrder TxnDropRecord :=
  LinearOrder.lift' (fun r => toLex (r.shardNum, toLex (r.viewNum, r.replicaNum)))
    (by rintro ⟨s, r, v⟩ ⟨s', r', v'⟩ h; cases h; rfl)

/-- `FcorStatus`. -/
inductive FcorStatus where
  | normal | epochChange | pendingStateTransfer
  deriving DecidableEq, Repr

/-- `LatestMsgRecord`. -/
structure LatestMsgRecord where
  replicaNum : Nat := 0
  opNum : Nat := 0
  msgNums : Nat → Option Nat := fun _ => none

/-- `LatestMsgRecord(msg)`. -/
def LatestMsgRecord.of (replicaNum : Nat) (ack : EpochChangeAck) : LatestMsgRecord :=
  { replicaNum := replicaNum
    opNum := ack.opNum
    msgNums := ack.logInfo.foldl (fun m x => Function.update m x.1 (some x.2)) fun _ => none }

/-- The promises of the shards to drop one transaction. -/
abbrev DropRecords := Int → Option (StdSet TxnDropRecord)

/-- The members of `Fcor`. -/
structure Fcor where
  txnResults : TxnID → Option TxnResult
  dropRecords : TxnID → Option DropRecords
  droppedTxns : Int → Option (StdSet TxnID)
  epochNum : Nat
  lastNormalEpoch : Nat
  status : FcorStatus
  epochChangeAcks : Int → Option (StdSet Int)
  latestMsgNums : Int → Option LatestMsgRecord
  latestViewNums : Int → Option Int
  pendingStateTransfers : StdMap (Int ×ₗ Int) EpochChangeStateTransfer
  lastStartEpochs : Int → Option StartEpoch

/-- The constructor. -/
def Fcor.initial : Fcor where
  txnResults _ := none
  dropRecords _ := none
  droppedTxns _ := none
  epochNum := 0
  lastNormalEpoch := 0
  status := .normal
  epochChangeAcks _ := none
  latestMsgNums _ := none
  latestViewNums _ := none
  pendingStateTransfers := StdMap.empty
  lastStartEpochs _ := none

/-- What an `Fcor` handler computes. -/
abbrev FcorHandler := Handler Fcor FCOutput

variable (config : Configuration)

/-! ### Transactions -/

/-- The ids of a transaction, one for each shard it runs on. -/
def txnIDs (txn : RequestMessage) : List TxnID :=
  txn.request.ops.map fun op => TxnID.of op.shard op.msgnum txn.request.sessnum

/-- `SendResult`. -/
def sendResult (id : TxnID) : FcorHandler Unit := do
  let s ← get
  let result ← ofOption (s.txnResults id)
  emit (.toGroup id.shardNum
    (if result.fate = .dropped then .dropTxn id.stamp else .txnFound result.txn))

/-- `HandleTxnInfoReq`. -/
def handleTxnInfoReq (txnNum : Stamp) : FcorHandler Unit := do
  let s ← get
  let id := TxnID.ofStamp txnNum
  if s.status ≠ .normal ∨ s.epochNum ≠ id.epochNum then return
  when ((s.txnResults id).isSome) (sendResult id)
  emit (.toAllGroups (.txnCheck txnNum))

/-- One of the ids has been dropped. -/
def shouldDrop (s : Fcor) (ids : List TxnID) : Prop :=
  ∃ id ∈ ids, (s.txnResults id).map TxnResult.fate = some .dropped

instance (s : Fcor) (ids : List TxnID) : Decidable (shouldDrop s ids) :=
  inferInstanceAs (Decidable (∃ id ∈ ids, _))

/-- The body of the last loop of `HandleTxnReceived`. -/
def commitResult (txnResult : TxnResult) (id : TxnID) : FcorHandler Unit := do
  let s ← get
  when (s.txnResults id = none) do
    modify fun s => { s with txnResults := Function.update s.txnResults id (some txnResult) }
    sendResult id

/-- `HandleTxnReceived`. -/
def handleTxnReceived (txn : RequestMessage) : FcorHandler Unit := do
  let s ← get
  if s.status ≠ .normal ∨ s.epochNum ≠ txn.request.sessnum then return
  let fate := if shouldDrop s (txnIDs txn) then .dropped else .found
  forEach (txnIDs txn) fun id =>
    modify fun s => { s with dropRecords := Function.update s.dropRecords id none }
  forEach (txnIDs txn) (commitResult { fate := fate, txn := txn })

/-! ### Promises to drop -/

/-- The loop of `AddDropRecord`: what it leaves of the promises, and whether the new one is to be
    added. -/
def siftPromises (newPromise : TxnDropRecord) :
    List TxnDropRecord → List TxnDropRecord × Bool
  | [] => ([], true)
  | it :: rest =>
    if it.viewNum < newPromise.viewNum then siftPromises newPromise rest
    else if it.viewNum > newPromise.viewNum then (it :: rest, false)
    else if it.replicaNum = newPromise.replicaNum then (rest, true)
    else (it :: (siftPromises newPromise rest).1, (siftPromises newPromise rest).2)

theorem siftPromises_sublist (newPromise : TxnDropRecord) :
    ∀ l : List TxnDropRecord, (siftPromises newPromise l).1.Sublist l
  | [] => List.Sublist.refl _
  | it :: rest => by
      unfold siftPromises
      split_ifs
      · exact (siftPromises_sublist newPromise rest).cons _
      · exact List.Sublist.refl _
      · exact List.sublist_cons_self ..
      · exact (siftPromises_sublist newPromise rest).cons_cons _

/-- The promises of a shard after a new one. -/
def addPromise (oldPromises : StdSet TxnDropRecord) (newPromise : TxnDropRecord) :
    StdSet TxnDropRecord :=
  let kept := oldPromises.ofSublist _ (siftPromises_sublist newPromise oldPromises.toList)
  if (siftPromises newPromise oldPromises.toList).2 then kept.insert newPromise else kept

/-- The promises for an id, by shard. -/
def Fcor.records (s : Fcor) (id : TxnID) : DropRecords := (s.dropRecords id).getD fun _ => none

/-- `AddDropRecord`. -/
def addDropRecord (id : TxnID) (newPromise : TxnDropRecord) (s : Fcor) : Fcor :=
  let oldPromises := (s.records id newPromise.shardNum).getD StdSet.empty
  { s with dropRecords := Function.update s.dropRecords id (some (Function.update (s.records id)
      newPromise.shardNum (some (addPromise oldPromises newPromise)))) }

/-- The checks of `IsDropped` on the promises of one shard. -/
def shardDropped (promises : StdSet TxnDropRecord) : Prop :=
  ¬ promises.size < config.quorumSize ∧
    ∃ record ∈ promises.toList, record.replicaNum = config.getLeaderIndex (toView record.viewNum)

instance (promises : StdSet TxnDropRecord) : Decidable (shardDropped config promises) :=
  inferInstanceAs (Decidable (_ ∧ ∃ record ∈ promises.toList, _))

/-- `IsDropped`. -/
def isDropped (s : Fcor) (id : TxnID) : Prop :=
  ∀ shardNum ∈ List.range config.g,
    ((s.records id shardNum).elim False (shardDropped config ·))

instance (s : Fcor) (id : TxnID) : Decidable (isDropped config s id) := by
  have (o : Option (StdSet TxnDropRecord)) :
      Decidable (o.elim False (shardDropped config ·)) := by
    cases o with
    | none => exact inferInstanceAs (Decidable False)
    | some promises => exact inferInstanceAs (Decidable (shardDropped config promises))
  exact inferInstanceAs (Decidable (∀ shardNum ∈ List.range config.g, _))

/-- `droppedTxns[shardNum].insert(id)`, which creates the set when it is missing. -/
def recordDrop (shardNum : Int) (id : TxnID) (s : Fcor) : Fcor :=
  let ids := (s.droppedTxns shardNum).getD StdSet.empty
  { s with droppedTxns := Function.update s.droppedTxns shardNum (some (ids.insert id)) }

/-- `HandleTxnTempDropped`. -/
def handleTxnTempDropped (txnNum : Stamp) (shardNum replicaNum viewNum : Int) :
    FcorHandler Unit := do
  let s ← get
  let id := TxnID.ofStamp txnNum
  if s.status ≠ .normal ∨ s.epochNum ≠ id.epochNum then return
  if (s.txnResults id).isSome then return
  modify (addDropRecord id
    { shardNum := shardNum, replicaNum := replicaNum, viewNum := viewNum })
  let s ← get
  when (isDropped config s id) do
    modify (recordDrop id.shardNum id)
    let txnResult : TxnResult := { fate := .dropped, txn := RequestMessage.blank }
    modify fun s => { s with txnResults := Function.update s.txnResults id (some txnResult) }
    sendResult id

/-! ### Epoch changes -/

/-- `HandleEpochChangeReq`. -/
def handleEpochChangeReq (shardNum replicaNum : Int) (newEpochNum : Nat) : FcorHandler Unit := do
  let s ← get
  if s.epochNum ≥ newEpochNum then
    when (s.lastNormalEpoch ≥ newEpochNum) do
      let startEpoch ← ofOption (s.lastStartEpochs shardNum)
      emit (.toReplica shardNum replicaNum (.startEpoch startEpoch))
  else
    modify fun s => { s with
      status := .epochChange
      epochNum := newEpochNum
      epochChangeAcks := fun _ => none
      latestMsgNums := fun _ => none
      latestViewNums := fun _ => none
      pendingStateTransfers := StdMap.empty }
    emit (.toAllGroups (.epochChange newEpochNum))

/-- The stamps of the ids dropped on a shard. -/
def permDrops (s : Fcor) (shardNum : Int) : List Stamp :=
  ((s.droppedTxns shardNum).getD StdSet.empty).toList.map TxnID.stamp

/-- The `StartEpoch` message for a shard; `latestViewNums[i]` and `latestMsgNums[i]` are created when
    they are missing. -/
def startEpochOf (s : Fcor) (i : Int) : StartEpoch :=
  let latest := (s.latestMsgNums i).getD {}
  { newView := { viewNum := toUInt32 ((s.latestViewNums i).getD 0), sessNum := s.epochNum }
    lastNormalEpochNum := s.lastNormalEpoch
    permDrops := permDrops s i
    latestReplicaNum := latest.replicaNum
    latestOpNum := latest.opNum }

/-- The body of the loop of `StartEpoch`. -/
def startShard (i : Int) : FcorHandler Unit := do
  let s ← get
  let m := startEpochOf s i
  modify fun s => { s with
    latestViewNums := Function.update s.latestViewNums i (some ((s.latestViewNums i).getD 0))
    latestMsgNums := Function.update s.latestMsgNums i (some ((s.latestMsgNums i).getD {})) }
  emit (.toGroup i (.startEpoch m))
  modify fun s => { s with lastStartEpochs := Function.update s.lastStartEpochs i (some m) }

/-- `StartEpoch`. -/
def startEpoch : FcorHandler Unit := do
  forEach (List.range config.g) fun i => startShard i
  modify fun s => { s with
    txnResults := fun _ => none
    dropRecords := fun _ => none
    droppedTxns := fun _ => none
    epochChangeAcks := fun _ => none
    lastNormalEpoch := s.epochNum
    status := .normal }

/-- The record of an acknowledgement in `HandleEpochChangeAck`: the latest view of the shard, the
    longest log of it, and the replica. -/
def updateView (shardNum : Int) (viewNum : Nat) (s : Fcor) : Fcor :=
  if toInt viewNum > (s.latestViewNums shardNum).getD (-1) then
    { s with latestViewNums := Function.update s.latestViewNums shardNum (some (toInt viewNum)) }
  else s

def updateFront (shardNum : Int) (replicaNum : Nat) (ack : EpochChangeAck) (s : Fcor) : Fcor :=
  if ack.lastNormalEpoch = s.lastNormalEpoch then
    let latest := (s.latestMsgNums shardNum).getD {}
    { s with latestMsgNums := Function.update s.latestMsgNums shardNum
              (some (if ack.opNum > latest.opNum then .of replicaNum ack else latest)) }
  else s

def recordAck (shardNum replicaNum : Int) (s : Fcor) : Fcor :=
  let acks := (s.epochChangeAcks shardNum).getD StdSet.empty
  { s with epochChangeAcks := Function.update s.epochChangeAcks shardNum
            (some (acks.insert replicaNum)) }

/-- `canStartEpoch`. -/
def canStartEpoch (s : Fcor) : Prop :=
  ∀ i ∈ List.range config.g, ¬ ((s.epochChangeAcks i).getD StdSet.empty).size < config.quorumSize ∧
    (s.epochChangeAcks i).isSome

instance (s : Fcor) : Decidable (canStartEpoch config s) :=
  inferInstanceAs (Decidable (∀ i ∈ List.range config.g, _))

/-- The loop over the other shards in `HandleEpochChangeAck`: which of them have received messages
    that shard `i` has not. `latestMsgNums[j].msg_nums[i]` is created when it is missing;
    `entry.msg_nums.at(i)` is not. -/
def latestMsgs (i : Nat) : List Nat → FcorHandler (List MsgEntry)
  | [] => pure []
  | j :: js => do
    let s ← get
    let own ← ofOption ((s.latestMsgNums i).bind (·.msgNums i))
    let latest := (s.latestMsgNums j).getD {}
    let msgNum := (latest.msgNums i).getD 0
    let touched := { latest with msgNums := Function.update latest.msgNums i (some msgNum) }
    modify fun s => { s with latestMsgNums := Function.update s.latestMsgNums j (some touched) }
    let rest ← latestMsgs i js
    if msgNum > own then
      pure ({ shardNum := j, replicaNum := latest.replicaNum, msgNum := msgNum } :: rest)
    else pure rest

/-- The body of the loop of `HandleEpochChangeAck` over the shards. -/
def transferShard (i : Nat) : FcorHandler Unit := do
  let s ← get
  let entry ← ofOption (s.latestMsgNums i)
  let msgs ← latestMsgs i (List.range config.g)
  let m : EpochChangeStateTransfer :=
    { epochNum := s.epochNum
      stateTransferEpochNum := s.lastNormalEpoch
      permDrops := permDrops s i
      latestMsgs := msgs }
  when (m.permDrops ≠ [] ∨ m.latestMsgs ≠ []) do
    modify fun s => { s with
      pendingStateTransfers := s.pendingStateTransfers.insert (toLex ((i : Int), toInt entry.replicaNum)) m }
    emit (.toReplica i (toInt entry.replicaNum) (.epochChangeStateTransfer m))
    modify fun s => { s with status := .pendingStateTransfer }

/-- `HandleEpochChangeAck`. -/
def handleEpochChangeAck (m : ErisToFCMessage) (ack : EpochChangeAck) : FcorHandler Unit := do
  let s ← get
  let shardNum := toInt m.shardNum
  let replicaNum := toInt m.replicaNum
  if s.status = .normal ∨ s.epochNum ≠ m.localViewNum.sessNum then
    assert (s.epochNum ≥ m.localViewNum.sessNum)
    let startEpoch ← ofOption (s.lastStartEpochs shardNum)
    emit (.toReplica shardNum replicaNum (.startEpoch startEpoch))
  else if s.status = .pendingStateTransfer then
    whenSome (s.pendingStateTransfers.find? (toLex (shardNum, replicaNum))) fun st =>
      emit (.toReplica shardNum replicaNum (.epochChangeStateTransfer st))
  else
    modify (updateView shardNum m.localViewNum.viewNum)
    assert (ack.lastNormalEpoch ≤ s.lastNormalEpoch)
    modify (updateFront shardNum m.replicaNum ack)
    modify (recordAck shardNum replicaNum)
    let s ← get
    when (canStartEpoch config s) do
      forEach (List.range config.g) (transferShard config)
      let s ← get
      when (s.status ≠ .pendingStateTransfer) do
        assert (s.pendingStateTransfers.toList = [])
        startEpoch config

/-- `HandleEpochChangeStateTransferAck`. -/
def handleEpochChangeStateTransferAck (m : ErisToFCMessage) (ack : EpochChangeStateTransferAck) :
    FcorHandler Unit := do
  let s ← get
  let shardNum := toInt m.shardNum
  let replicaNum := toInt m.replicaNum
  if s.status ≠ .pendingStateTransfer ∨ m.localViewNum.sessNum ≠ s.epochNum then return
  assert (s.pendingStateTransfers.toList ≠ [])
  let latest ← ofOption (s.latestMsgNums shardNum)
  assert (latest.replicaNum = m.replicaNum)
  assert (ack.opNum ≥ latest.opNum)
  let latest := { latest with opNum := ack.opNum }
  modify fun s => { s with latestMsgNums := Function.update s.latestMsgNums shardNum (some latest) }
  forEach ack.drops fun stn => modify (recordDrop shardNum (TxnID.ofStamp stn))
  modify fun s => { s with
    pendingStateTransfers := s.pendingStateTransfers.erase (toLex (shardNum, replicaNum)) }
  let s ← get
  when (s.pendingStateTransfers.toList = []) (startEpoch config)

/-! ### Dispatch -/

/-- `ReplicaUpcall`, of an operation that is the message `m`. -/
def replicaUpcall (isLeader : Bool) (m : ErisToFCMessage) : FcorHandler Unit :=
  if ¬ isLeader then pure ()
  else
    let shardNum := toInt m.shardNum
    let replicaNum := toInt m.replicaNum
    match m.msg with
    | .txnInfoReq txnNum => handleTxnInfoReq txnNum
    | .txnReceived txn => handleTxnReceived txn
    | .txnTempDrop txnNum =>
      handleTxnTempDropped config txnNum shardNum replicaNum (toInt m.localViewNum.viewNum)
    | .epochChangeReq newEpochNum => handleEpochChangeReq shardNum replicaNum newEpochNum
    | .epochChangeAck ack => handleEpochChangeAck config m ack
    | .epochChangeStateTransferAck ack => handleEpochChangeStateTransferAck config m ack
    | .notSet => abort

/-- The operations of a log, applied in order, each with the leader status at that moment. -/
def applyLog (ops : List (Bool × ErisToFCMessage)) : FcorHandler Unit :=
  forEach ops fun (isLeader, m) => replicaUpcall config isLeader m

end Dsnet.Eris
