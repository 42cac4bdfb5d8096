import Dsnet.Lib.Bytes
import Dsnet.NOPaxos.Message

/-! `replication/nopaxos/message.cc` and `sequencer.cc`: how a message goes over the wire. Before the message
    there is a header with room for a session number and a message number, which the sequencer fills in
    where it is, or the header is empty and the sequencer is not asked.

    Memory that is not written keeps what it had, and reading past the end of a buffer, like `Panic`, gives
    `none`. What the library of protocol buffers does is a parameter. -/

namespace Dsnet

/-- Serialization by protocol buffers. -/
structure Protobuf (α : Type) where
  serialize : α → List UInt8
  parse : List UInt8 → α

/-- The rest of the buffer after a header of this size, as `Parse` hands it to the library. -/
def readBody (size headerSz : Nat) (p : List UInt8) : Option (List UInt8) :=
  if 2 + headerSz ≤ size ∧ size - 2 - headerSz ≤ p.length then some (p.take (size - 2 - headerSz)) else none

theorem readBody_eq {size headerSz : Nat} {p : List UInt8} (h : size = 2 + headerSz + p.length) :
    readBody size headerSz p = some p := by
  rw [readBody, if_pos (by omega), List.take_of_length_le (by omega)]

namespace NOPaxos

/-- `NOPaxosMessage`. -/
structure NOPaxosMessage where
  sequencing : Bool
  msg : ToReplicaMessage

/-- `NOPaxosSequencer`. -/
structure NOPaxosSequencer where
  sessNum : Nat
  msgNum : Nat
  sessNum_lt : sessNum < 2 ^ 16
  msgNum_lt : msgNum < 2 ^ 64

variable (P : Protobuf ToReplicaMessage)

/-- `NOPaxosMessage::SerializedSize`. -/
def NOPaxosMessage.serializedSize (m : NOPaxosMessage) : Nat :=
  2 + (if m.sequencing = true then 2 + 8 else 0) + (P.serialize m.msg).length

/-- `NOPaxosMessage::Serialize` into memory that had `old` in it. -/
def NOPaxosMessage.serialize (m : NOPaxosMessage) (old : List UInt8) : List UInt8 :=
  if m.sequencing = true then
    netBytes 2 (2 + 8) ++ ((old.drop 2).take (2 + 8) ++ P.serialize m.msg)
  else netBytes 2 0 ++ P.serialize m.msg

/-- `++msg_num_`. -/
def NOPaxosSequencer.next (q : NOPaxosSequencer) : NOPaxosSequencer :=
  { q with msgNum := (q.msgNum + 1) % 2 ^ 64, msgNum_lt := Nat.mod_lt _ (by decide) }

/-- `NOPaxosSequencer::ReceiveMessage`: the message as it is sent to all, if it is. -/
def NOPaxosSequencer.receiveMessage (q : NOPaxosSequencer) (buf : List UInt8) :
    Option (NOPaxosSequencer × Option (List UInt8)) := do
  let (headerSz, p) ← readNet 2 buf
  if headerSz > 0 then
    if p.length < 2 + 8 then none
    else some (q.next,
      some (buf.take 2 ++ (netBytes 2 q.sessNum ++ (netBytes 8 q.next.msgNum ++ p.drop (2 + 8)))))
  else some (q, none)

/-- `NOPaxosMessage::Parse`: the stamp goes into the request. -/
def stampRequest (sessNum msgNum : Nat) : ToReplicaMessage → Option ToReplicaMessage
  | .request m => some (.request { m with sessnum := sessNum, msgnum := msgNum })
  | _ => none

/-- `NOPaxosMessage::Parse`. -/
def NOPaxosMessage.parse (m : NOPaxosMessage) (buf : List UInt8) : Option NOPaxosMessage := do
  let (headerSz, p) ← readNet 2 buf
  if headerSz > 0 then
    let (sessNum, p) ← readNet 2 p
    let (msgNum, p) ← readNet 8 p
    let body ← readBody buf.length headerSz p
    let msg ← stampRequest sessNum msgNum (P.parse body)
    some { m with msg := msg }
  else
    let body ← readBody buf.length headerSz p
    some { m with msg := P.parse body }

variable {P}

/-- A message that is not for the sequencer is parsed as it was sent, and the sequencer leaves it alone. -/
theorem parse_serialize_unsequenced {msg : ToReplicaMessage} (hP : P.parse (P.serialize msg) = msg)
    (m : NOPaxosMessage) (q : NOPaxosSequencer) (old : List UInt8) :
    q.receiveMessage ((NOPaxosMessage.mk false msg).serialize P old) = some (q, none) ∧
    m.parse P ((NOPaxosMessage.mk false msg).serialize P old) = some { m with msg := msg } := by
  have hread := readNet_netBytes (w := 2) (n := 0) (by decide) (P.serialize msg)
  have hbody : readBody (2 + (P.serialize msg).length) 0 (P.serialize msg) = some (P.serialize msg) :=
    readBody_eq (by omega)
  constructor
  · simp [NOPaxosMessage.serialize, NOPaxosSequencer.receiveMessage, hread]
  · rw [NOPaxosMessage.serialize, if_neg Bool.false_ne_true, NOPaxosMessage.parse, hread]
    simp [hbody, hP]

/-- A client's request comes out of the sequencer with the next message number of its session. -/
theorem nopaxos_roundTrip {r : RequestMessage} (hP : P.parse (P.serialize (.request r)) = .request r)
    (m : NOPaxosMessage) (q : NOPaxosSequencer) {old : List UInt8}
    (hold : old.length = (NOPaxosMessage.mk true (.request r)).serializedSize P) : ∃ buf,
    q.receiveMessage ((NOPaxosMessage.mk true (.request r)).serialize P old) = some (q.next, some buf) ∧
    m.parse P buf = some { m with msg := .request { r with
      sessnum := q.sessNum, msgnum := q.next.msgNum } } := by
  have hsize : old.length = 2 + (2 + 8) + (P.serialize (.request r)).length := hold
  have hroom : ((old.drop 2).take (2 + 8)).length = 2 + 8 := by
    rw [List.length_take, List.length_drop]
    omega
  have hread := readNet_netBytes (w := 2) (n := 2 + 8) (by decide)
    ((old.drop 2).take (2 + 8) ++ P.serialize (.request r))
  have hlong : ¬ ((old.drop 2).take (2 + 8) ++ P.serialize (.request r)).length < 2 + 8 := by
    rw [List.length_append, hroom]
    omega
  refine ⟨netBytes 2 (2 + 8) ++ (netBytes 2 q.sessNum ++ (netBytes 8 q.next.msgNum ++
    P.serialize (.request r))), ?_, ?_⟩
  · rw [NOPaxosMessage.serialize, if_pos rfl, NOPaxosSequencer.receiveMessage, hread]
    simp only [Option.bind_eq_bind, Option.bind_some, hlong, if_false, gt_iff_lt, Nat.succ_pos, if_true,
      List.take_left' (length_netBytes 2 (2 + 8)), List.drop_left' hroom]
  · have hbody : readBody (netBytes 2 (2 + 8) ++ (netBytes 2 q.sessNum ++
        (netBytes 8 q.next.msgNum ++ P.serialize (.request r)))).length (2 + 8)
        (P.serialize (.request r)) = some (P.serialize (.request r)) := by
      refine readBody_eq ?_
      simp only [List.length_append, length_netBytes]
      omega
    rw [NOPaxosMessage.parse, readNet_netBytes (by decide)]
    simp only [Option.bind_eq_bind, Option.bind_some, gt_iff_lt, Nat.succ_pos, if_true]
    rw [readNet_netBytes q.sessNum_lt]
    simp only [Option.bind_some]
    rw [readNet_netBytes q.next.msgNum_lt]
    simp only [Option.bind_some, hbody, hP, stampRequest]

end NOPaxos
end Dsnet
