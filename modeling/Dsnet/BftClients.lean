import Dsnet.Common.ReplyClient
import Dsnet.HotStuff.Replica
import Dsnet.MinBFT.Replica
import Dsnet.PBFT.Replica
import Dsnet.TOMBFT.Replica

/-! `replication/{pbft,minbft,hotstuff,tombft}/client.cc`: what the clients do with the replies of the replicas. Each
    is a `ReplyProtocol`, with its own threshold. What they send is left out. -/

namespace Dsnet

namespace PBFT

/-- `PBFTClient`. -/
structure PBFTClient extends Collector where
  viewNumber : Nat

/-- What the client reads of a `Reply`. -/
def Reply.report (m : Reply) : Report where
  requestNumber := m.requestNumber
  replicaId := m.replicaId
  result := m.result

/-- `Invoke`. -/
def PBFTClient.invoke (s : PBFTClient) (op : String) : Option PBFTClient :=
  (s.toCollector.invoke op).map fun base => { toCollector := base, viewNumber := s.viewNumber }

/-- `ReceiveMessage`. The timer goes on. -/
def PBFTClient.receiveMessage (config : Configuration) (s : PBFTClient) (m : Reply) : Option (PBFTClient × Option Answer) :=
  (s.toCollector.receive config.n (config.f + 1) false m.report).map fun x =>
    ({ toCollector := x.1, viewNumber := if x.2.isSome then m.viewNumber else s.viewNumber }, x.2)

/-- The client as a protocol. -/
def clientProtocol (config : Configuration) : ReplyProtocol where
  State := PBFTClient
  Msg := Reply
  n := config.n
  threshold := config.f + 1
  stops := false
  init := { toCollector := .initial, viewNumber := 0 }
  invoke := PBFTClient.invoke
  receive := PBFTClient.receiveMessage config
  base := PBFTClient.toCollector
  report := Reply.report
  threshold_pos := Nat.succ_pos _
  base_init := rfl
  base_invoke s op := by
    rw [PBFTClient.invoke, Option.map_map]
    exact Option.map_id' ..
  base_receive s m := by
    rw [PBFTClient.receiveMessage, Option.map_map]
    exact Option.map_id' ..

end PBFT

namespace MinBFT

/-- `MinBFTClient`. -/
abbrev MinBFTClient := Collector

/-- What the client reads of a `Reply`. -/
def Reply.report (m : Reply) : Report where
  requestNumber := m.requestNumber
  replicaId := m.replicaId
  result := m.result

/-- `ReceiveMessage`. -/
def MinBFTClient.receiveMessage (config : Configuration) (s : MinBFTClient) (m : Reply) :
    Option (MinBFTClient × Option Answer) :=
  s.receive config.n (config.f + 1) true m.report

/-- The client as a protocol. -/
def clientProtocol (config : Configuration) : ReplyProtocol where
  State := MinBFTClient
  Msg := Reply
  n := config.n
  threshold := config.f + 1
  stops := true
  init := .initial
  invoke := Collector.invoke
  receive := MinBFTClient.receiveMessage config
  base := id
  report := Reply.report
  threshold_pos := Nat.succ_pos _
  base_init := rfl
  base_invoke _ _ := Option.map_id' ..
  base_receive _ _ := Option.map_id' ..

end MinBFT

namespace HotStuff

/-- `HotStuffClient`. -/
abbrev HotStuffClient := Collector

/-- What the client reads of a `ReplyMessage`. -/
def ReplyMessage.report (m : ReplyMessage) : Report where
  requestNumber := m.clientRequest
  replicaId := m.replicaIndex
  result := m.result

/-- `ReceiveMessage`. -/
def HotStuffClient.receiveMessage (config : Configuration) (s : HotStuffClient) (m : ReplyMessage) :
    Option (HotStuffClient × Option Answer) :=
  s.receive config.n (config.f + 1) true m.report

/-- The client as a protocol. -/
def clientProtocol (config : Configuration) : ReplyProtocol where
  State := HotStuffClient
  Msg := ReplyMessage
  n := config.n
  threshold := config.f + 1
  stops := true
  init := .initial
  invoke := Collector.invoke
  receive := HotStuffClient.receiveMessage config
  base := id
  report := ReplyMessage.report
  threshold_pos := Nat.succ_pos _
  base_init := rfl
  base_invoke _ _ := Option.map_id' ..
  base_receive _ _ := Option.map_id' ..

end HotStuff

namespace TOMBFT

/-- `TOMBFTClient`. -/
abbrev TOMBFTClient := Collector

/-- What the client reads of a `ReplyMessage`. -/
def ReplyMessage.report (m : ReplyMessage) : Report where
  requestNumber := m.clientRequest
  replicaId := m.replicaIndex
  result := m.result

/-- `HandleReply`. -/
def TOMBFTClient.handleReply (config : Configuration) (s : TOMBFTClient) (m : ReplyMessage) :
    Option (TOMBFTClient × Option Answer) :=
  s.receive config.n (2 * config.f + 1) true m.report

/-- The client as a protocol. -/
def clientProtocol (config : Configuration) : ReplyProtocol where
  State := TOMBFTClient
  Msg := ReplyMessage
  n := config.n
  threshold := 2 * config.f + 1
  stops := true
  init := .initial
  invoke := Collector.invoke
  receive := TOMBFTClient.handleReply config
  base := id
  report := ReplyMessage.report
  threshold_pos := Nat.succ_pos _
  base_init := rfl
  base_invoke _ _ := Option.map_id' ..
  base_receive _ _ := Option.map_id' ..

end TOMBFT

/-! ### Vouching -/

/-- The clients. -/
inductive BftClient where
  | pbft | minbft | hotstuff | tombft
  deriving DecidableEq, Repr

namespace BftClient

/-- The client as a protocol. -/
def protocol (config : Configuration) : BftClient → ReplyProtocol
  | pbft => PBFT.clientProtocol config
  | minbft => MinBFT.clientProtocol config
  | hotstuff => HotStuff.clientProtocol config
  | tombft => TOMBFT.clientProtocol config

/-- The vouchers that the client needs. -/
def threshold (config : Configuration) : BftClient → Nat
  | tombft => 2 * config.f + 1
  | _ => config.f + 1

/-- In every run in which replies name their senders: a result that the client hands over has been reported by enough
    replicas exactly when all that had replied to the request by then have reported it. -/
theorem result_vouched_iff (config : Configuration) (k : BftClient) {past : List (k.protocol config).Seen}
    {x : (k.protocol config).Seen} (hr : Run (k.protocol config).system (k.protocol config).Genuine past x) :
    ∀ a ∈ x.handed, a.Vouched (k.threshold config) ↔ a.Agreed := by
  have hthreshold : (k.protocol config).threshold = k.threshold config := by cases k <;> rfl
  exact hthreshold ▸ ReplyProtocol.handed_iff hr

/-- A group with one fault. -/
def group : BftClient → Configuration
  | minbft => { n := 3, f := 1 }
  | _ => { n := 4, f := 1 }

/-- A reply of replica `i` to the first request. -/
def firstReply (i : Nat) (result : String) : (k : BftClient) → (k.protocol k.group).Event
  | pbft => .reply i { result := result, requestNumber := 1, replicaId := i, viewNumber := 0 }
  | minbft => .reply i { result := result, requestNumber := 1, replicaId := i }
  | hotstuff => .reply i { result := result, clientRequest := 1, replicaIndex := i }
  | tombft => .reply i { result := result, clientRequest := 1, replicaIndex := i }

/-- The replies of replicas that tell the truth, one fewer than are needed. -/
def truths (k : BftClient) : List (k.protocol k.group).Event :=
  (List.range (k.threshold k.group - 1)).map fun i => k.firstReply i "true"

theorem result_vouched_iff_truths : ∃ x : (tombft.protocol tombft.group).Seen, ∃ a ∈ x.handed,
    a.result = "true" ∧ a.Vouched 3 := by
  obtain ⟨past, x, hr, hx⟩ := Run.exists_of_exec (tombft.protocol tombft.group).system
    (tombft.protocol tombft.group).Genuine (.invoke "read" :: (tombft.truths ++ [firstReply 2 "true" tombft]))
    (fun x => decide (∃ a ∈ x.handed, a.result = "true" ∧ a.Agreed)) (by decide +kernel)
  obtain ⟨a, ha, htrue, hagreed⟩ := of_decide_eq_true hx
  exact ⟨x, a, ha, htrue, (result_vouched_iff tombft.group tombft hr a ha).mpr hagreed⟩

/-- The client hands over a result that only one faulty replica has reported. -/
def Misled (k : BftClient) : Prop :=
  ∃ past x, Run (k.protocol k.group).system (k.protocol k.group).Genuine past x ∧
    ∃ a ∈ x.handed, a.result = "false" ∧ ¬ a.Vouched (k.threshold k.group)

theorem misled (k : BftClient) : k.Misled := by
  obtain ⟨past, x, hr, hx⟩ := Run.exists_of_exec (k.protocol k.group).system (k.protocol k.group).Genuine
    (.invoke "read" :: (k.truths ++ [firstReply (k.threshold k.group - 1) "false" k]))
    (fun x => decide (∃ a ∈ x.handed, a.result = "false" ∧ ¬ a.Vouched (k.threshold k.group)))
    (by cases k <;> decide +kernel)
  exact ⟨past, x, hr, of_decide_eq_true hx⟩

/-- The reply of one faulty replica, when it is the last, is what each of the clients hands over. -/
theorem last_reply_wins : pbft.Misled ∧ minbft.Misled ∧ hotstuff.Misled ∧ tombft.Misled :=
  ⟨misled pbft, misled minbft, misled hotstuff, misled tombft⟩

end BftClient
end Dsnet
