import Dsnet.Common.Log

/-! `replication/nopaxos/nopaxos-proto.proto`: the NOPaxos messages. A request carries the stamp of the
    sequencer that has multicast it (`message.cc` writes it into the request when it parses one), a
    session number and a message number. A view ID is a session number together with a view number.
    An optional field that is read when it is not set has its default value. -/

namespace Dsnet.NOPaxos

/-- A `Request` with no field set. -/
def noopRequest : Request := { op := "", clientid := 0, clientreqid := 0 }

/-- `ReplyMessage`. -/
structure ReplyMessage where
  view : Nat := 0
  sessnum : Nat := 0
  opnum : Nat := 0
  clientreqid : Nat := 0
  replicaidx : Nat := 0
  reply : Option String := none
  deriving DecidableEq

/-- `ToClientMessage`. -/
inductive ToClientMessage where
  | reply (m : ReplyMessage)
  | unloggedReply (reply : String)
  deriving DecidableEq

/-- `RequestMessage`. -/
structure RequestMessage where
  sessnum : Nat
  msgnum : Nat
  req : Request
  deriving DecidableEq

/-- `GapRequestMessage`. -/
structure GapRequestMessage where
  view : Nat
  sessnum : Nat
  opnum : Nat
  deriving DecidableEq

/-- `GapReplyMessage`. -/
structure GapReplyMessage where
  view : Nat
  sessnum : Nat
  opnum : Nat
  isfound : Bool
  isgap : Bool
  replicaidx : Nat
  req : Request
  deriving DecidableEq

/-- `StateTransferRequestMessage`, for the opnums from `opBegin` up to, and without, `opEnd`. -/
structure StateTransferRequestMessage where
  sessnum : Nat
  view : Nat
  opBegin : Nat
  opEnd : Nat
  deriving DecidableEq

/-- `StateTransferReplyMessage`. -/
structure StateTransferReplyMessage where
  sessnum : Nat
  view : Nat
  opBegin : Nat
  opEnd : Nat
  entries : List LogEntry
  deriving DecidableEq

/-- `GapCommitMessage`. -/
structure GapCommitMessage where
  sessnum : Nat
  view : Nat
  opnum : Nat
  deriving DecidableEq

/-- `GapCommitReplyMessage`. -/
structure GapCommitReplyMessage where
  sessnum : Nat
  view : Nat
  opnum : Nat
  replicaidx : Nat
  deriving DecidableEq

/-- `ViewChangeRequestMessage`. -/
structure ViewChangeRequestMessage where
  sessnum : Nat
  view : Nat
  deriving DecidableEq

/-- `ViewChangeMessage`. -/
structure ViewChangeMessage where
  sessnum : Nat
  view : Nat
  lastnormalsessnum : Nat
  lastnormalview : Nat
  lastop : Nat
  committedgaps : List Nat
  replicaidx : Nat
  deriving DecidableEq

/-- `StartViewMessage`. -/
structure StartViewMessage where
  sessnum : Nat
  view : Nat
  lastnormalsessnum : Nat
  lastnormalview : Nat
  lastop : Nat
  committedgaps : List Nat
  deriving DecidableEq

/-- `StartViewReplyMessage`. -/
structure StartViewReplyMessage where
  sessnum : Nat
  view : Nat
  replicaidx : Nat
  deriving DecidableEq

/-- `SyncPrepareRequestMessage`. -/
structure SyncPrepareRequestMessage where
  sessnum : Nat
  view : Nat
  deriving DecidableEq

/-- `SyncPrepareMessage`. -/
structure SyncPrepareMessage where
  sessnum : Nat
  view : Nat
  lastop : Nat
  committedgaps : List Nat
  deriving DecidableEq

/-- `SyncPrepareReplyMessage`. -/
structure SyncPrepareReplyMessage where
  sessnum : Nat
  view : Nat
  syncpoint : Nat
  replicaidx : Nat
  deriving DecidableEq

/-- `SyncCommitMessage`. -/
structure SyncCommitMessage where
  sessnum : Nat
  view : Nat
  syncpoint : Nat
  deriving DecidableEq

/-- `ToReplicaMessage`. -/
inductive ToReplicaMessage where
  | request (m : RequestMessage)
  | unloggedRequest (op : String)
  | gapRequest (m : GapRequestMessage)
  | gapReply (m : GapReplyMessage)
  | stateTransferRequest (m : StateTransferRequestMessage)
  | stateTransferReply (m : StateTransferReplyMessage)
  | gapCommit (m : GapCommitMessage)
  | gapCommitReply (m : GapCommitReplyMessage)
  | viewChangeRequest (m : ViewChangeRequestMessage)
  | viewChange (m : ViewChangeMessage)
  | startView (m : StartViewMessage)
  | startViewReply (m : StartViewReplyMessage)
  | syncPrepareRequest (m : SyncPrepareRequestMessage)
  | syncPrepare (m : SyncPrepareMessage)
  | syncPrepareReply (m : SyncPrepareReplyMessage)
  | syncCommit (m : SyncCommitMessage)
  deriving DecidableEq

end Dsnet.NOPaxos
