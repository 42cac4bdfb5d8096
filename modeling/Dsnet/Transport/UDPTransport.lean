import Dsnet.Lib.Bytes
import Dsnet.Lib.Run

/-! `lib/udptransport.{h,cc}`: messages over UDP. `SendMessageInternal` puts a short message in one datagram
    and a long one in fragments, and `ProcessPacket` puts the fragments together again, with one
    buffer for each sender.

    A process is modelled that receives from any number of senders. Datagrams may be lost, received several
    times and in any order. The copy that `ProcessPacket` makes of a reassembled message is taken to have
    room for it, and system calls to succeed. A failed `ASSERT` gives `none`. -/

namespace Dsnet.Transport

/-- `MAX_UDP_MESSAGE_SIZE`. -/
def maxUdpMessageSize : Nat := 9000

/-- `NONFRAG_MAGIC`. -/
def nonfragMagic : Nat := 0x20050318

/-- `FRAG_MAGIC`. -/
def fragMagic : Nat := 0x20101010

/-- A number of `w` bytes, as it is written into a buffer. -/
def word (w n : Nat) : List UInt8 := (bytes w n).map UInt8.ofNat

/-- The number in the first `w` bytes of a buffer. -/
def readWord (w : Nat) (buf : List UInt8) : Nat := Nat.ofDigits 256 ((buf.take w).map UInt8.toNat)

/-- A serialized message; with the preamble its size is a `size_t`. -/
structure Body where
  data : List UInt8
  fits : data.length + 4 < 2 ^ 64

/-! ### Sending -/

/-- One round of the loop over the fragments. -/
def fragment (msgId : Nat) (body : List UInt8) (fragStart : Nat) : List UInt8 :=
  word 4 fragMagic ++ (word 8 msgId ++ (word 8 fragStart ++ (word 8 body.length ++
    (body.drop fragStart).take maxUdpMessageSize)))

/-- The loop over the fragments, `num_frags` rounds. -/
def fragments (msgId : Nat) (body : List UInt8) : List (List UInt8) :=
  (List.range ((body.length - 1) / maxUdpMessageSize + 1)).map fun i =>
    fragment msgId body (i * maxUdpMessageSize)

/-- `SendMessageInternal`: the datagrams, and the new `lastFragMsgId`. -/
def sendMessageInternal (lastFragMsgId : Nat) (m : Body) : List (List UInt8) × Nat :=
  if 4 + m.data.length ≤ maxUdpMessageSize then ([word 4 nonfragMagic ++ m.data], lastFragMsgId)
  else (fragments ((lastFragMsgId + 1) % 2 ^ 64) m.data, (lastFragMsgId + 1) % 2 ^ 64)

/-! ### Receiving -/

/-- `UDPTransportFragInfo`. -/
structure FragInfo where
  msgId : Nat
  data : List UInt8
  deriving DecidableEq

/-- The part of `ProcessPacket` that follows the header of a fragment: the sender's buffer, and the message when it
    is complete. -/
def reassemble (info : FragInfo) (msgId fragStart msgLen : Nat) (payload : List UInt8) :
    Option (FragInfo × Option (List UInt8)) :=
  let info := if info.msgId = 0 then { msgId := msgId, data := [] } else info
  if info.msgId ≠ msgId ∧ ¬ msgId > info.msgId then none
  else
    let info := if info.msgId ≠ msgId then { msgId := msgId, data := [] } else info
    if fragStart ≠ info.data.length then some (info, none)
    else if (info.data ++ payload).length = msgLen then
      some ({ msgId := 0, data := [] }, some (info.data ++ payload))
    else some ({ info with data := info.data ++ payload }, none)

/-- `ProcessPacket` as far as the dispatch. The header of a fragment has 28 bytes; a shorter one fails one of the
    assertions between its fields. -/
def processPacket (info : FragInfo) (buf : List UInt8) : Option (FragInfo × Option (List UInt8)) :=
  if buf.length ≤ 4 then none
  else if readWord 4 buf = nonfragMagic then some (info, some (buf.drop 4))
  else if readWord 4 buf = fragMagic then
    if buf.length ≤ 28 then none
    else
      let msgId := readWord 8 (buf.drop 4)
      let fragStart := readWord 8 (buf.drop 12)
      let msgLen := readWord 8 (buf.drop 20)
      if (buf.drop 28).length = min ((msgLen + 2 ^ 64 - fragStart) % 2 ^ 64) maxUdpMessageSize then
        reassemble info msgId fragStart msgLen (buf.drop 28)
      else none
  else some (info, none)

/-- The dispatch: what is delivered now, and what is kept to simulate a reordering. The rolls that simulate a
    drop and a reordering are given. -/
def dispatch {α : Type} (drop reorder : Bool) (buffer : Option α) (m : α) : List α × Option α :=
  if drop then ([], buffer)
  else if reorder ∧ buffer = none then ([], some m)
  else (m :: buffer.toList, none)

/-! ### The system -/

/-- What a sender counts, and what it has sent to the receiver: all messages, and those in fragments with
    their ids. -/
structure Sender where
  lastFragMsgId : Nat
  sent : List (List UInt8)
  fragmented : List (Nat × List UInt8)

/-- The senders by address, all datagrams sent so far, and the receiver. -/
structure Net where
  senders : Nat → Sender
  wire : List (Nat × List UInt8)
  fragInfo : Nat → FragInfo
  reorderBuffer : Option (Nat × List UInt8)
  delivered : List (Nat × List UInt8)

/-- A message is sent, or one of the datagrams sent arrives. -/
inductive Event where
  | send (addr : Nat) (m : Body)
  | receive (i : Nat) (drop reorder : Bool)

/-- The sender has sent a message and counts from `last` on. -/
def Sender.send (x : Sender) (m : Body) : Sender :=
  let last := (sendMessageInternal x.lastFragMsgId m).2
  { lastFragMsgId := last
    sent := x.sent ++ [m.data]
    fragmented := if 4 + m.data.length ≤ maxUdpMessageSize then x.fragmented
      else x.fragmented ++ [(last, m.data)] }

def Net.send (s : Net) (addr : Nat) (m : Body) : Net :=
  { s with
    senders := Function.update s.senders addr ((s.senders addr).send m)
    wire := s.wire ++ (sendMessageInternal (s.senders addr).lastFragMsgId m).1.map fun d => (addr, d) }

def Net.deliver (s : Net) (addr : Nat) (drop reorder : Bool) : Option (List UInt8) → Net
  | none => s
  | some m =>
    { s with
      delivered := s.delivered ++ (dispatch drop reorder s.reorderBuffer (addr, m)).1
      reorderBuffer := (dispatch drop reorder s.reorderBuffer (addr, m)).2 }

def Net.receive (s : Net) (addr : Nat) (buf : List UInt8) (drop reorder : Bool) : Option Net :=
  (processPacket (s.fragInfo addr) buf).map fun (info, m) =>
    { s with fragInfo := Function.update s.fragInfo addr info }.deliver addr drop reorder m

def system : System Net Event where
  init :=
    { senders := fun _ => { lastFragMsgId := 0, sent := [], fragmented := [] }
      wire := []
      fragInfo := fun _ => { msgId := 0, data := [] }
      reorderBuffer := none
      delivered := [] }
  step s
    | .send addr m => some (s.send addr m)
    | .receive i drop reorder => s.wire[i]?.bind fun x => s.receive x.1 x.2 drop reorder

/-- The ids that a sender gives increase: its counter has not come to its end. -/
def IdsIncrease (s : Net) : Event → Prop
  | .send addr _ => (s.senders addr).lastFragMsgId + 1 < 2 ^ 64
  | .receive .. => True

end Dsnet.Transport
