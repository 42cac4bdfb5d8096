import Dsnet.Common.Replica

/-! `replication/vr/vr-proto.proto`: the messages of Viewstamped Replication. -/

namespace Dsnet.VR

/-- `ReplyMessage`. -/
structure ReplyMessage where
  view : Nat
  opnum : Nat
  reply : String
  clientreqid : Nat
  deriving DecidableEq, Repr

/-- `ToClientMessage`. -/
inductive ToClientMessage where
  | reply (m : ReplyMessage)
  | unloggedReply (reply : String)
  deriving DecidableEq, Repr

/-- `PrepareMessage`. -/
structure PrepareMessage where
  view : Nat
  opnum : Nat
  batchstart : Nat
  request : List Request
  deriving DecidableEq, Repr

/-- `PrepareOKMessage`. -/
structure PrepareOKMessage where
  view : Nat
  opnum : Nat
  replicaidx : Nat
  deriving DecidableEq, Repr

/-- `CommitMessage`. -/
structure CommitMessage where
  view : Nat
  opnum : Nat
  deriving DecidableEq, Repr

/-- `RequestStateTransferMessage`. -/
structure RequestStateTransferMessage where
  view : Nat
  opnum : Nat
  deriving DecidableEq, Repr

/-- `StateTransferMessage`. -/
structure StateTransferMessage where
  view : Nat
  opnum : Nat
  entries : List LogEntry
  deriving DecidableEq, Repr

/-- `StartViewChangeMessage`. -/
structure StartViewChangeMessage where
  view : Nat
  replicaidx : Nat
  lastcommitted : Nat
  deriving DecidableEq, Repr

/-- `DoViewChangeMessage`. -/
structure DoViewChangeMessage where
  view : Nat
  lastnormalview : Nat
  lastop : Nat
  lastcommitted : Nat
  entries : List LogEntry
  replicaidx : Nat
  deriving DecidableEq, Repr

/-- `StartViewMessage`. -/
structure StartViewMessage where
  view : Nat
  lastop : Nat
  lastcommitted : Nat
  entries : List LogEntry
  deriving DecidableEq, Repr

/-- `RecoveryMessage`. -/
structure RecoveryMessage where
  replicaidx : Nat
  nonce : Nat
  deriving DecidableEq, Repr

/-- `RecoveryResponseMessage`; the optional numbers read as 0 when they are not set. -/
structure RecoveryResponseMessage where
  view : Nat
  nonce : Nat
  entries : List LogEntry
  lastop : Nat
  lastcommitted : Nat
  replicaidx : Nat
  deriving DecidableEq, Repr

/-- `ToReplicaMessage`; `notSet` is a message with no case set. -/
inductive ToReplicaMessage where
  | request (req : Request)
  | unloggedRequest (op : String)
  | prepare (m : PrepareMessage)
  | prepareOK (m : PrepareOKMessage)
  | commit (m : CommitMessage)
  | requestStateTransfer (m : RequestStateTransferMessage)
  | stateTransfer (m : StateTransferMessage)
  | startViewChange (m : StartViewChangeMessage)
  | doViewChange (m : DoViewChangeMessage)
  | startView (m : StartViewMessage)
  | recovery (m : RecoveryMessage)
  | recoveryResponse (m : RecoveryResponseMessage)
  | notSet
  deriving DecidableEq, Repr

/-- What a replica hands to its transport. -/
inductive Output where
  | toReplica (idx : Nat) (m : ToReplicaMessage)
  | toAll (m : ToReplicaMessage)
  | toAddr (addr : Addr) (m : ToReplicaMessage)
  | toClient (addr : Addr) (m : ToClientMessage)
  deriving DecidableEq, Repr

/-! ### What a handler sends -/

/-- An output to a client. -/
def Output.isReply : Output → Prop
  | .toClient .. => True
  | _ => False

/-- The message of an output, if it is one to replicas, has the property. -/
def Output.Carries (P : ToReplicaMessage → Prop) : Output → Prop
  | .toReplica _ m | .toAll m | .toAddr _ m => P m
  | .toClient .. => True

/-- The messages to replicas among the outputs all have the property. -/
def Sends (P : ToReplicaMessage → Prop) (o : List Output) : Prop := ∀ x ∈ o, x.Carries P

variable {P : ToReplicaMessage → Prop} {o o' : List Output}

@[simp] theorem carries_toReplica {i : Nat} {m : ToReplicaMessage} :
    (Output.toReplica i m).Carries P ↔ P m := Iff.rfl

@[simp] theorem carries_toAll {m : ToReplicaMessage} : (Output.toAll m).Carries P ↔ P m := Iff.rfl

@[simp] theorem carries_toAddr {a : Addr} {m : ToReplicaMessage} :
    (Output.toAddr a m).Carries P ↔ P m := Iff.rfl

@[simp] theorem carries_toClient {a : Addr} {m : ToClientMessage} :
    (Output.toClient a m).Carries P ↔ True := Iff.rfl

@[simp] theorem sends_nil : Sends P [] := by simp [Sends]

@[simp] theorem sends_cons {x : Output} : Sends P (x :: o) ↔ x.Carries P ∧ Sends P o :=
  List.forall_mem_cons

@[simp] theorem sends_append : Sends P (o ++ o') ↔ Sends P o ∧ Sends P o' :=
  List.forall_mem_append

theorem Sends.append (h : Sends P o) (h' : Sends P o') : Sends P (o ++ o') :=
  sends_append.mpr ⟨h, h'⟩

theorem Sends.of_isReply (h : ∀ x ∈ o, x.isReply) : Sends P o := by
  intro x hx
  cases x <;> first | trivial | exact (h _ hx).elim

end Dsnet.VR
