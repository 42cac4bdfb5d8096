import Dsnet.Common.Log

/-! `transaction/eris/eris-proto.proto`: the messages between the Eris replicas and the failure
    coordinator. An optional number reads as 0 when it is not set. -/

namespace Dsnet.Eris

/-- `ViewNum`. -/
structure ViewNum where
  viewNum : Nat
  sessNum : Nat
  deriving DecidableEq, Repr

/-- `Stamp`. -/
structure Stamp where
  shardNum : Nat
  msgNum : Nat
  sessNum : Nat := 0
  deriving DecidableEq, Repr

/-- `RequestType`. -/
inductive RequestType where
  | unknown | independent | prepare | commit | abort
  deriving DecidableEq, Repr

/-- `RequestMessage`. -/
structure RequestMessage where
  txnid : Nat
  type : RequestType
  request : SequencedRequest
  deriving DecidableEq, Repr

/-- `RequestMessage()`. -/
def RequestMessage.blank : RequestMessage :=
  { txnid := 0, type := .unknown, request := { op := "", clientid := 0, clientreqid := 0 } }

/-! ### From the replicas -/

/-- `EpochChangeAck`; `logInfo` pairs a shard with its latest message number. -/
structure EpochChangeAck where
  lastNormalEpoch : Nat
  opNum : Nat
  logInfo : List (Nat × Nat)
  deriving DecidableEq, Repr

/-- `EpochChangeStateTransferAck`. -/
structure EpochChangeStateTransferAck where
  opNum : Nat
  drops : List Stamp
  deriving DecidableEq, Repr

/-- The cases of an `ErisToFCMessage`; `notSet` is a message with no case set. -/
inductive ToFCCase where
  | txnInfoReq (txnNum : Stamp)
  | txnReceived (txn : RequestMessage)
  | txnTempDrop (txnNum : Stamp)
  | epochChangeReq (newEpochNum : Nat)
  | epochChangeAck (ack : EpochChangeAck)
  | epochChangeStateTransferAck (ack : EpochChangeStateTransferAck)
  | notSet
  deriving DecidableEq, Repr

/-- `ErisToFCMessage`. -/
structure ErisToFCMessage where
  shardNum : Nat
  replicaNum : Nat
  localViewNum : ViewNum
  msg : ToFCCase
  deriving DecidableEq, Repr

/-! ### From the failure coordinator -/

/-- `EpochChangeStateTransfer.MsgEntry`. -/
structure MsgEntry where
  shardNum : Nat
  replicaNum : Nat
  msgNum : Nat
  deriving DecidableEq, Repr

/-- `EpochChangeStateTransfer`. -/
structure EpochChangeStateTransfer where
  epochNum : Nat
  stateTransferEpochNum : Nat
  permDrops : List Stamp
  latestMsgs : List MsgEntry
  deriving DecidableEq, Repr

/-- `StartEpoch`. -/
structure StartEpoch where
  newView : ViewNum
  lastNormalEpochNum : Nat
  permDrops : List Stamp
  latestReplicaNum : Nat
  latestOpNum : Nat
  deriving DecidableEq, Repr

/-- `FCToErisMessage`. -/
inductive FCToErisMessage where
  | txnCheck (txnNum : Stamp)
  | txnFound (txn : RequestMessage)
  | dropTxn (txnNum : Stamp)
  | epochChange (newEpochNum : Nat)
  | epochChangeStateTransfer (m : EpochChangeStateTransfer)
  | startEpoch (m : StartEpoch)
  deriving DecidableEq, Repr

/-- What the failure coordinator hands to its transport. -/
inductive FCOutput where
  | toAllGroups (m : FCToErisMessage)
  | toGroup (shardNum : Int) (m : FCToErisMessage)
  | toReplica (shardNum replicaNum : Int) (m : FCToErisMessage)
  deriving DecidableEq, Repr

end Dsnet.Eris
