import Dsnet.NOPaxos.Wire
import Dsnet.Eris.Server

/-! `transaction/eris/message.cc` and `sequencer.cc`: how a message goes over the wire. The header of a
    client's request names the groups that it is for, with room for a message number after each, which the
    sequencer fills in where it is; other messages have an empty header.

    The stamp of a message is an object that `Parse` puts numbers into but never empties: a server parses
    all it receives with one object, so its stamp keeps the groups of earlier requests (`Exact`). -/

namespace Dsnet.Eris

/-- `Multistamp`. -/
structure Multistamp where
  sessNum : Nat
  msgNums : StdMap Nat Nat

/-- `ErisMessage`. -/
structure ErisMessage where
  stamp : Multistamp
  msg : ToServerMessage

/-- `ErisSequencer`. -/
structure ErisSequencer where
  sessNum : Nat
  msgNums : Nat → Nat
  sessNum_lt : sessNum < 2 ^ 16
  msgNums_lt : ∀ g, msgNums g < 2 ^ 64

/-- The constructor with the groups of a message; `sess_num` is not initialized. -/
def ErisMessage.forGroups (sessNum : Nat) (msg : ToServerMessage) (groups : List Nat) : ErisMessage where
  stamp := { sessNum := sessNum, msgNums := groups.foldl (fun nums g => nums.insert g 0) StdMap.empty }
  msg := msg

variable (P : Protobuf ToServerMessage)

/-! ### Sending -/

/-- `Multistamp::SerializedSize`. -/
def Multistamp.serializedSize (s : Multistamp) : Nat := 2 + 1 + s.msgNums.size * (4 + 8)

/-- `ErisMessage::SerializedSize`. -/
def ErisMessage.serializedSize (m : ErisMessage) : Nat :=
  2 + (if m.stamp.msgNums.size > 0 then m.stamp.serializedSize else 0) + (P.serialize m.msg).length

/-- `Serialize`: the groups, into memory that had `old` in it. -/
def serializeGroups : List Nat → List UInt8 → List UInt8
  | [], _ => []
  | g :: gs, old => netBytes 4 g ++ ((old.drop 4).take 8 ++ serializeGroups gs (old.drop (4 + 8)))

/-- `ErisMessage::Serialize` into memory that had `old` in it, when `msg_nums` lists its groups in this
    order. -/
def ErisMessage.serialize (m : ErisMessage) (order : List Nat) (old : List UInt8) : List UInt8 :=
  if m.stamp.msgNums.size > 0 then
    netBytes 2 m.stamp.serializedSize ++ ((old.drop 2).take 2 ++ (netBytes 1 m.stamp.msgNums.size ++
      (serializeGroups order (old.drop (2 + 2 + 1)) ++ P.serialize m.msg)))
  else netBytes 2 0 ++ P.serialize m.msg

/-! ### Sequencing -/

/-- `++msg_nums_[g]`. -/
def ErisSequencer.next (q : ErisSequencer) (g : Nat) : ErisSequencer :=
  { q with
    msgNums := Function.update q.msgNums g ((q.msgNums g + 1) % 2 ^ 64)
    msgNums_lt := fun g' => by
      by_cases hg : g' = g
      · subst hg
        rw [Function.update_self]
        exact Nat.mod_lt _ (by decide)
      · rw [Function.update_of_ne hg]
        exact q.msgNums_lt g' }

/-- The loop of `ErisSequencer::ReceiveMessage`: the groups, and the buffer from there on. -/
def stampGroups : Nat → ErisSequencer → List UInt8 → Option (List Nat × ErisSequencer × List UInt8)
  | 0, q, p => some ([], q, p)
  | n + 1, q, p => do
    let (g, p') ← readNet 4 p
    if p'.length < 8 then none
    else
      let (groups, q', rest) ← stampGroups n (q.next g) (p'.drop 8)
      some (g :: groups, q', p.take 4 ++ (netBytes 8 ((q.next g).msgNums g) ++ rest))

/-- `ErisSequencer::ReceiveMessage`: the message as it is sent, and the groups, if it is. -/
def ErisSequencer.receiveMessage (q : ErisSequencer) (buf : List UInt8) :
    Option (ErisSequencer × Option (List Int × List UInt8)) := do
  let (headerSz, p) ← readNet 2 buf
  if headerSz > 0 then
    if p.length < 2 then none
    else
      let (n, p') ← readNet 1 (p.drop 2)
      let (groups, q', rest) ← stampGroups n q p'
      some (q', some (groups.map toInt,
        buf.take 2 ++ (netBytes 2 q.sessNum ++ ((p.drop 2).take 1 ++ rest))))
  else some (q, none)

/-! ### Parsing -/

/-- The loop of `Parse` over the groups. -/
def readGroups : Nat → StdMap Nat Nat → List UInt8 → Option (StdMap Nat Nat × List UInt8)
  | 0, nums, p => some (nums, p)
  | n + 1, nums, p => do
    let (id, p) ← readNet 4 p
    let (msgNum, p) ← readNet 8 p
    readGroups n (nums.insert id msgNum) p

/-- `Parse`: the stamp in the header. -/
def Multistamp.read (stamp : Multistamp) (p : List UInt8) : Option (Multistamp × List UInt8) := do
  let (sessNum, p) ← readNet 2 p
  let (n, p) ← readNet 1 p
  let (nums, p) ← readGroups n stamp.msgNums p
  some ({ sessNum := sessNum, msgNums := nums }, p)

/-- `Parse`: the stamp goes into the request, whose operations all have to be for groups that it names. -/
def Multistamp.putInto (stamp : Multistamp) : ToServerMessage → Option ToServerMessage
  | .request m => do
    let ops ← m.request.ops.mapM fun op =>
      (stamp.msgNums.find? op.shard).map fun msgNum => { op with msgnum := msgNum }
    some (.request { m with request := { m.request with sessnum := stamp.sessNum, ops := ops } })
  | _ => none

/-- `ErisMessage::Parse`. -/
def ErisMessage.parse (m : ErisMessage) (buf : List UInt8) : Option ErisMessage := do
  let (headerSz, p) ← readNet 2 buf
  if headerSz > 0 then
    let (stamp, p) ← m.stamp.read p
    let body ← readBody buf.length headerSz p
    let msg ← stamp.putInto (P.parse body)
    some { stamp := stamp, msg := msg }
  else
    let body ← readBody buf.length headerSz p
    some { m with msg := P.parse body }

/-- `Parse` of one buffer after the other. -/
def ErisMessage.parseAll (m : ErisMessage) (bufs : List (List UInt8)) : Option ErisMessage :=
  bufs.foldlM (ErisMessage.parse P) m

variable {P}

/-! ### Through the sequencer -/

/-- What the groups of a header look like with these message numbers. -/
def stampedGroups (num : Nat → Nat) : List Nat → List UInt8
  | [] => []
  | g :: gs => netBytes 4 g ++ (netBytes 8 (num g) ++ stampedGroups num gs)

@[simp] theorem length_stampedGroups (num : Nat → Nat) : ∀ order : List Nat,
    (stampedGroups num order).length = order.length * (4 + 8)
  | [] => by simp [stampedGroups]
  | g :: gs => by
      simp only [stampedGroups, List.length_append, length_netBytes, length_stampedGroups num gs, List.length_cons]
      omega

theorem stampedGroups_congr {num num' : Nat → Nat} : ∀ {order : List Nat}, (∀ g ∈ order, num g = num' g) →
    stampedGroups num order = stampedGroups num' order
  | [], _ => rfl
  | g :: gs, h => by
      rw [stampedGroups, stampedGroups, h g (List.mem_cons_self ..),
        stampedGroups_congr fun g' hg' => h g' (List.mem_cons_of_mem g hg')]

/-- The sequencer gives each group its next number. -/
theorem stampGroups_serialize (rest : List UInt8) : ∀ (order : List Nat) (q : ErisSequencer) (old : List UInt8),
    order.Nodup → (∀ g ∈ order, g < 2 ^ 32) → order.length * (4 + 8) ≤ old.length →
    ∃ q', stampGroups order.length q (serializeGroups order old ++ rest) =
        some (order, q', stampedGroups (fun g => (q.msgNums g + 1) % 2 ^ 64) order ++ rest) ∧
      q'.sessNum = q.sessNum ∧
      ∀ g, q'.msgNums g = if g ∈ order then (q.msgNums g + 1) % 2 ^ 64 else q.msgNums g
  | [], q, _, _, _, _ => ⟨q, rfl, rfl, fun g => by simp⟩
  | g :: gs, q, old, hnodup, hids, hold => by
      obtain ⟨hg, hgs⟩ := List.nodup_cons.mp hnodup
      rw [List.length_cons] at hold
      have hroom : ((old.drop 4).take 8).length = 8 := by
        rw [List.length_take, List.length_drop]
        omega
      obtain ⟨q', hq', hsess, hnums⟩ := stampGroups_serialize rest gs (q.next g) (old.drop (4 + 8)) hgs
        (fun g' hg' => hids g' (List.mem_cons_of_mem g hg')) (by rw [List.length_drop]; omega)
      have hself : (q.next g).msgNums g = (q.msgNums g + 1) % 2 ^ 64 := Function.update_self ..
      have hother : ∀ g' ∈ gs, (q.next g).msgNums g' = q.msgNums g' := fun g' hg' =>
        Function.update_of_ne (ne_of_mem_of_not_mem hg' hg) ..
      refine ⟨q', ?_, hsess, fun g' => ?_⟩
      · have hlong : ¬ ((old.drop 4).take 8 ++ (serializeGroups gs (old.drop (4 + 8)) ++ rest)).length < 8 := by
          rw [List.length_append, hroom]
          omega
        rw [serializeGroups, List.length_cons, stampGroups, List.append_assoc,
          readNet_netBytes (hids g (List.mem_cons_self ..))]
        simp only [List.append_assoc, Option.bind_eq_bind, Option.bind_some, hlong, if_false,
          List.drop_left' hroom, hq', hself, List.take_left' (length_netBytes 4 g), stampedGroups]
        rw [stampedGroups_congr fun g' hg' => by rw [hother g' hg']]
      · rw [hnums]
        by_cases hmem : g' ∈ gs
        · rw [if_pos hmem, if_pos (List.mem_cons_of_mem g hmem), hother g' hmem]
        · rw [if_neg hmem]
          by_cases he : g' = g
          · subst he
            rw [if_pos (List.mem_cons_self ..), hself]
          · rw [if_neg fun h => (List.mem_cons.mp h).elim he hmem]
            exact Function.update_of_ne he ..

/-- The numbers are read back. -/
theorem readGroups_stamped {num : Nat → Nat} (hnum : ∀ g, num g < 2 ^ 64) (rest : List UInt8) :
    ∀ {order : List Nat} {nums : StdMap Nat Nat}, (∀ g ∈ order, g < 2 ^ 32) →
      readGroups order.length nums (stampedGroups num order ++ rest) =
        some (order.foldl (fun nums g => nums.insert g (num g)) nums, rest)
  | [], _, _ => rfl
  | g :: gs, nums, hids => by
      rw [stampedGroups, List.length_cons, readGroups, List.append_assoc,
        readNet_netBytes (hids g (List.mem_cons_self ..))]
      simp only [Option.bind_eq_bind, Option.bind_some, List.append_assoc]
      rw [readNet_netBytes (hnum g)]
      simp only [Option.bind_some]
      rw [readGroups_stamped hnum rest fun g' hg' => hids g' (List.mem_cons_of_mem g hg'), List.foldl_cons]

theorem find?_foldl_insert (num : Nat → Nat) (g : Nat) : ∀ (order : List Nat) (nums : StdMap Nat Nat),
    (order.foldl (fun nums g => nums.insert g (num g)) nums).find? g =
      if g ∈ order then some (num g) else nums.find? g
  | [], nums => by simp
  | g' :: gs, nums => by
      rw [List.foldl_cons, find?_foldl_insert num g gs]
      by_cases hmem : g ∈ gs
      · rw [if_pos hmem, if_pos (List.mem_cons_of_mem g' hmem)]
      · rw [if_neg hmem, StdMap.find?_insert]
        by_cases he : g = g'
        · subst he
          rw [if_pos rfl, if_pos (List.mem_cons_self ..)]
        · rw [if_neg he, if_neg fun h => (List.mem_cons.mp h).elim he hmem]

/-- A way in which `msg_nums` may list the groups of a message. -/
structure Lists (order groups : List Nat) : Prop where
  nodup : order.Nodup
  mem : ∀ g, g ∈ order ↔ g ∈ groups

theorem Lists.size_forGroups {order groups : List Nat} (h : Lists order groups) (sessNum : Nat)
    (msg : ToServerMessage) : (ErisMessage.forGroups sessNum msg groups).stamp.msgNums.size = order.length := by
  have hkeys : (ErisMessage.forGroups sessNum msg groups).stamp.msgNums.keys = order.toFinset := by
    ext g
    rw [StdMap.keys, List.mem_toFinset, ← StdMap.find?_isSome, List.mem_toFinset, h.mem]
    show ((groups.foldl (fun nums g => nums.insert g ((fun _ => 0) g)) StdMap.empty).find? g).isSome = true ↔ _
    rw [find?_foldl_insert]
    split_ifs with hmem
    · simp [hmem]
    · simp [hmem, StdMap.find?]
  rw [← StdMap.card_keys, hkeys, List.toFinset_card_of_nodup h.nodup]

/-- The request with the session number and the message numbers put into it. -/
def RequestMessage.stamped (r : RequestMessage) (sessNum : Nat) (num : Nat → Nat) : RequestMessage :=
  { r with request := { r.request with
      sessnum := sessNum, ops := r.request.ops.map fun op => { op with msgnum := num op.shard } } }

theorem putInto_stamped {stamp : Multistamp} {r : RequestMessage} {num : Nat → Nat}
    (h : ∀ op ∈ r.request.ops, stamp.msgNums.find? op.shard = some (num op.shard)) :
    stamp.putInto (.request r) = some (.request (r.stamped stamp.sessNum num)) := by
  have hops : ∀ {ops : List ShardOp}, (∀ op ∈ ops, stamp.msgNums.find? op.shard = some (num op.shard)) →
      (ops.mapM fun op => (stamp.msgNums.find? op.shard).map fun msgNum => { op with msgnum := msgNum }) =
        some (ops.map fun op => { op with msgnum := num op.shard }) := by
    intro ops hops
    induction ops with
    | nil => rfl
    | cons op ops ih =>
      rw [List.mapM_cons, hops op (List.mem_cons_self ..), ih fun op' hop' => hops op' (List.mem_cons_of_mem op hop')]
      rfl
  rw [Multistamp.putInto, hops h]
  rfl

/-- A message without groups is parsed as it was sent, and the sequencer leaves it alone. -/
theorem parse_serialize_unstamped {msg : ToServerMessage} (hP : P.parse (P.serialize msg) = msg)
    (m : ErisMessage) (sessNum : Nat) (q : ErisSequencer) (old : List UInt8) :
    q.receiveMessage ((ErisMessage.forGroups sessNum msg []).serialize P [] old) = some (q, none) ∧
    m.parse P ((ErisMessage.forGroups sessNum msg []).serialize P [] old) = some { m with msg := msg } := by
  have hread := readNet_netBytes (w := 2) (n := 0) (by decide) (P.serialize msg)
  have hbody : readBody (2 + (P.serialize msg).length) 0 (P.serialize msg) = some (P.serialize msg) :=
    readBody_eq (by omega)
  have hsize : ¬ (ErisMessage.forGroups sessNum msg []).stamp.msgNums.size > 0 := Nat.lt_irrefl 0
  have hmsg : (ErisMessage.forGroups sessNum msg []).msg = msg := rfl
  constructor
  · simp [ErisMessage.serialize, hsize, hmsg, ErisSequencer.receiveMessage, hread]
  · rw [ErisMessage.serialize, if_neg hsize, hmsg, ErisMessage.parse, hread]
    simp [hbody, hP]

/-- A client's request comes out of the sequencer with the next number of each of its groups, and is parsed
    with these numbers. -/
theorem eris_roundTrip {r : RequestMessage} (hP : P.parse (P.serialize (.request r)) = .request r)
    {m : ErisMessage} (hfresh : m.stamp.msgNums = StdMap.empty) (q : ErisSequencer) (sessNum : Nat)
    {groups order : List Nat} (hne : groups ≠ []) (hids : ∀ g ∈ groups, g < 2 ^ 32)
    (horder : Lists order groups) (hlen : order.length ≤ 255)
    (hops : ∀ op ∈ r.request.ops, op.shard ∈ groups) {old : List UInt8}
    (hold : old.length = (ErisMessage.forGroups sessNum (.request r) groups).serializedSize P) :
    ∃ q' buf m', q.receiveMessage ((ErisMessage.forGroups sessNum (.request r) groups).serialize P order old) =
        some (q', some (order.map toInt, buf)) ∧
      q'.sessNum = q.sessNum ∧
      (∀ g, q'.msgNums g = if g ∈ groups then (q.msgNums g + 1) % 2 ^ 64 else q.msgNums g) ∧
      m.parse P buf = some m' ∧
      m'.msg = .request (r.stamped q.sessNum fun g => (q.msgNums g + 1) % 2 ^ 64) ∧
      m'.stamp.sessNum = q.sessNum ∧
      ∀ g, m'.stamp.msgNums.find? g = if g ∈ groups then some ((q.msgNums g + 1) % 2 ^ 64) else none := by
  have hcount := horder.size_forGroups sessNum (.request r)
  have hpos : order.length > 0 := by
    obtain ⟨g, hg⟩ := List.exists_mem_of_ne_nil groups hne
    exact List.length_pos_of_mem ((horder.mem g).mpr hg)
  have hids' : ∀ g ∈ order, g < 2 ^ 32 := fun g hg => hids g ((horder.mem g).mp hg)
  have hheader : (ErisMessage.forGroups sessNum (.request r) groups).stamp.serializedSize =
      2 + 1 + order.length * (4 + 8) := by rw [Multistamp.serializedSize, hcount]
  rw [ErisMessage.serializedSize, hcount, if_pos hpos, hheader] at hold
  have hroom : ((old.drop 2).take 2).length = 2 := by
    rw [List.length_take, List.length_drop]
    omega
  let num : Nat → Nat := fun g => (q.msgNums g + 1) % 2 ^ 64
  have hnum : ∀ g, num g < 2 ^ 64 := fun g => Nat.mod_lt _ (by decide)
  obtain ⟨q', hq', hsess, hnums⟩ := stampGroups_serialize (P.serialize (.request r)) order q
    (old.drop (2 + 2 + 1)) horder.nodup hids' (by rw [List.length_drop]; omega)
  let buf : List UInt8 := netBytes 2 (2 + 1 + order.length * (4 + 8)) ++ (netBytes 2 q.sessNum ++
    (netBytes 1 order.length ++ (stampedGroups num order ++ P.serialize (.request r))))
  let stamp : Multistamp := ⟨q.sessNum, order.foldl (fun nums g => nums.insert g (num g)) m.stamp.msgNums⟩
  have hfind : ∀ g, stamp.msgNums.find? g = if g ∈ groups then some (num g) else none := by
    intro g
    show (order.foldl (fun nums g => nums.insert g (num g)) m.stamp.msgNums).find? g = _
    rw [find?_foldl_insert, hfresh]
    simp only [horder.mem]
    rfl
  refine ⟨q', buf, ⟨stamp, .request (r.stamped q.sessNum num)⟩, ?_, hsess, fun g => ?_, ?_, rfl, rfl, hfind⟩
  · have hlong : ¬ ((old.drop 2).take 2 ++ (netBytes 1 order.length ++ (serializeGroups order
        (old.drop (2 + 2 + 1)) ++ P.serialize (.request r)))).length < 2 := by
      rw [List.length_append, hroom]
      omega
    rw [ErisMessage.serialize, hcount, if_pos hpos, hheader, ErisSequencer.receiveMessage,
      readNet_netBytes (by omega)]
    simp only [Option.bind_eq_bind, Option.bind_some]
    rw [if_pos (by omega), List.drop_left' hroom]
    simp only [ErisMessage.forGroups, hlong, if_false]
    rw [readNet_netBytes (by omega)]
    simp only [Option.bind_some, hq', List.take_left' (length_netBytes _ _)]
    rfl
  · rw [hnums]
    simp only [horder.mem]
  · have hbody : readBody buf.length (2 + 1 + order.length * (4 + 8)) (P.serialize (.request r)) =
        some (P.serialize (.request r)) := by
      refine readBody_eq ?_
      simp only [buf, List.length_append, length_netBytes, length_stampedGroups]
      omega
    have hread : m.stamp.read (netBytes 2 q.sessNum ++ (netBytes 1 order.length ++
        (stampedGroups num order ++ P.serialize (.request r)))) = some (stamp, P.serialize (.request r)) := by
      rw [Multistamp.read, readNet_netBytes q.sessNum_lt]
      simp only [Option.bind_eq_bind, Option.bind_some]
      rw [readNet_netBytes (by omega)]
      simp only [Option.bind_some]
      rw [readGroups_stamped hnum _ hids']
      rfl
    rw [ErisMessage.parse, readNet_netBytes (by omega)]
    simp only [Option.bind_eq_bind, Option.bind_some]
    rw [if_pos (by omega), hread]
    simp only [Option.bind_some, hbody, hP]
    rw [putInto_stamped fun op hop => (hfind op.shard).trans (if_pos (hops op hop))]
    rfl

/-! ### What a stamp keeps -/

/-- The groups and message numbers that stand in a buffer. -/
def readPairs : Nat → List UInt8 → Option (List (Nat × Nat))
  | 0, _ => some []
  | n + 1, p => do
    let (id, p) ← readNet 4 p
    let (msgNum, p) ← readNet 8 p
    let rest ← readPairs n p
    some ((id, msgNum) :: rest)

/-- The session number, the groups and the message numbers in the header of a buffer, if it is not empty. -/
def header (buf : List UInt8) : Option (Nat × List (Nat × Nat)) := do
  let (headerSz, p) ← readNet 2 buf
  if headerSz > 0 then
    let (sessNum, p) ← readNet 2 p
    let (n, p) ← readNet 1 p
    let pairs ← readPairs n p
    some (sessNum, pairs)
  else none

/-- The groups with their message numbers that a buffer encodes. -/
def encoded (buf : List UInt8) : List (Nat × Nat) := ((header buf).map Prod.snd).getD []

/-- The number of a group, by the last that is said of it. -/
def lastNum (pairs : List (Nat × Nat)) (g : Nat) : Option Nat := (pairs.reverse.find? (·.1 = g)).map Prod.snd

/-- The stamp names the groups and message numbers that the buffer encodes, and its session. -/
structure Exact (stamp : Multistamp) (buf : List UInt8) : Prop where
  msgNums : ∀ g, stamp.msgNums.find? g = lastNum (encoded buf) g
  sessNum : ∀ h ∈ header buf, stamp.sessNum = h.1

theorem lastNum_append (l l' : List (Nat × Nat)) (g : Nat) :
    lastNum (l ++ l') g = (lastNum l' g).or (lastNum l g) := by
  rw [lastNum, List.reverse_append, List.find?_append, lastNum, lastNum]
  cases l'.reverse.find? (·.1 = g) <;> rfl

theorem lastNum_eq_none {l : List (Nat × Nat)} {g : Nat} : lastNum l g = none ↔ g ∉ l.map Prod.fst := by
  simp only [lastNum, Option.map_eq_none_iff, List.find?_eq_none, List.mem_reverse, decide_eq_true_eq,
    List.mem_map, not_exists, not_and]

theorem readGroups_spec {rest : List UInt8} : ∀ {n : Nat} {nums nums' : StdMap Nat Nat} {p : List UInt8},
    readGroups n nums p = some (nums', rest) → ∃ pairs, readPairs n p = some pairs ∧
      ∀ g, nums'.find? g = (lastNum pairs g).or (nums.find? g)
  | 0, nums, nums', p, h => by
      obtain ⟨rfl, -⟩ := Prod.mk.inj (Option.some.inj h)
      exact ⟨[], rfl, fun g => rfl⟩
  | n + 1, nums, nums', p, h => by
      obtain ⟨⟨id, p₁⟩, hid, h⟩ := Option.bind_eq_some_iff.mp h
      obtain ⟨⟨msgNum, p₂⟩, hnum, h⟩ := Option.bind_eq_some_iff.mp h
      obtain ⟨pairs, hpairs, hfind⟩ := readGroups_spec h
      refine ⟨(id, msgNum) :: pairs, ?_, fun g => ?_⟩
      · rw [readPairs, hid]
        simp only [Option.bind_eq_bind, Option.bind_some, hnum, hpairs]
      · rw [hfind, show (id, msgNum) :: pairs = [(id, msgNum)] ++ pairs from rfl, lastNum_append, Option.or_assoc,
          StdMap.find?_insert]
        congr 1
        by_cases hg : g = id
        · subst hg
          simp [lastNum]
        · simp [lastNum, hg, Ne.symm hg]

/-- The numbers of a buffer are put into the stamp, and nothing is taken out. -/
theorem parse_stamp {m m' : ErisMessage} {buf : List UInt8} (h : m.parse P buf = some m') :
    (∀ g, m'.stamp.msgNums.find? g = (lastNum (encoded buf) g).or (m.stamp.msgNums.find? g)) ∧
    ∀ x ∈ header buf, m'.stamp.sessNum = x.1 := by
  obtain ⟨⟨headerSz, p⟩, hsz, h⟩ := Option.bind_eq_some_iff.mp h
  dsimp only at h
  split_ifs at h with hpos
  · obtain ⟨⟨stamp, p'⟩, hstamp, h⟩ := Option.bind_eq_some_iff.mp h
    obtain ⟨body, -, h⟩ := Option.bind_eq_some_iff.mp h
    obtain ⟨msg, -, h⟩ := Option.bind_eq_some_iff.mp h
    obtain rfl := Option.some.inj h
    obtain ⟨⟨sessNum, p₁⟩, hsess, hstamp⟩ := Option.bind_eq_some_iff.mp hstamp
    obtain ⟨⟨n, p₂⟩, hn, hstamp⟩ := Option.bind_eq_some_iff.mp hstamp
    obtain ⟨⟨nums, p₃⟩, hnums, hstamp⟩ := Option.bind_eq_some_iff.mp hstamp
    obtain ⟨rfl, rfl⟩ := Prod.mk.inj (Option.some.inj hstamp)
    obtain ⟨pairs, hpairs, hfind⟩ := readGroups_spec hnums
    have hheader : header buf = some (sessNum, pairs) := by
      rw [header, hsz]
      simp only [Option.bind_eq_bind, Option.bind_some, if_pos hpos, hsess, hn, hpairs]
    refine ⟨fun g => ?_, fun x hx => ?_⟩
    · rw [encoded, hheader]
      exact hfind g
    · rw [hheader] at hx
      rw [← Option.some.inj hx]
  · obtain ⟨body, -, h⟩ := Option.bind_eq_some_iff.mp h
    obtain rfl := Option.some.inj h
    have hheader : header buf = none := by
      rw [header, hsz]
      simp only [Option.bind_eq_bind, Option.bind_some, if_neg hpos]
    refine ⟨fun g => ?_, fun x hx => ?_⟩
    · rw [encoded, hheader]
      rfl
    · rw [hheader] at hx
      cases hx

theorem parseAll_stamp {m' : ErisMessage} {g : Nat} : ∀ {bufs : List (List UInt8)} {m : ErisMessage},
    m.parseAll P bufs = some m' →
      m'.stamp.msgNums.find? g = (lastNum (bufs.flatMap encoded) g).or (m.stamp.msgNums.find? g)
  | [], m, h => by
      obtain rfl := Option.some.inj h
      rfl
  | buf :: bufs, m, h => by
      obtain ⟨m₁, hm₁, h⟩ := Option.bind_eq_some_iff.mp h
      rw [parseAll_stamp h, (parse_stamp hm₁).1, List.flatMap_cons, lastNum_append, Option.or_assoc]

/-- After other buffers the stamp is exactly that of the last one, if and only if this names every group that
    any of the others names. -/
theorem parse_exact_iff {m m₁ m₂ : ErisMessage} (hfresh : m.stamp.msgNums = StdMap.empty)
    {bufs : List (List UInt8)} {buf : List UInt8} (hbufs : m.parseAll P bufs = some m₁)
    (hbuf : m₁.parse P buf = some m₂) :
    Exact m₂.stamp buf ↔ ∀ b ∈ bufs, ∀ x ∈ encoded b, x.1 ∈ (encoded buf).map Prod.fst := by
  obtain ⟨hnums, hsess⟩ := parse_stamp hbuf
  have hbefore : ∀ g, m₁.stamp.msgNums.find? g = lastNum (bufs.flatMap encoded) g := by
    intro g
    rw [parseAll_stamp hbufs, hfresh]
    exact Option.or_none ..
  constructor
  · intro h b hb x hx
    by_contra hnot
    have hnone := lastNum_eq_none.mpr hnot
    have hfind := h.msgNums x.1
    rw [hnums, hnone, Option.none_or, hbefore, lastNum_eq_none] at hfind
    exact hfind (List.mem_map_of_mem (List.mem_flatMap.mpr ⟨b, hb, hx⟩))
  · refine fun h => ⟨fun g => ?_, hsess⟩
    rw [hnums]
    cases hlast : lastNum (encoded buf) g with
    | some num => rfl
    | none =>
      rw [Option.none_or, hbefore, lastNum_eq_none]
      rintro hg
      obtain ⟨x, hx, rfl⟩ := List.mem_map.mp hg
      obtain ⟨b, hb, hxb⟩ := List.mem_flatMap.mp hx
      exact lastNum_eq_none.mp hlast (h b hb x hxb)

/-! Two requests of one client: the first one is for shards 0 and 1, the second one for shard 0. -/

def txnOn (shards : List Nat) (clientreqid : Nat) : RequestMessage :=
  { txnid := 7, type := .independent
    request := { op := "", clientid := 7, clientreqid := clientreqid, ops := shards.map fun g => ⟨g, "x", 0⟩ } }

/-- A `ShardOp`, a `Request`, a `RequestMessage` and a `ToServerMessage` as they are serialized. -/
def txnBytes (shards : List Nat) (clientreqid : Nat) : List UInt8 :=
  let ops := shards.flatMap fun g => [0x22, 0x05, 0x08, UInt8.ofNat g, 0x12, 0x01, 0x78]
  let request := [0x0a, 0x00, 0x10, 0x07, 0x18, UInt8.ofNat clientreqid] ++ ops
  let message := [0x08, 0x07, 0x10, 0x01, 0x1a, UInt8.ofNat request.length] ++ request
  [0x0a, UInt8.ofNat message.length] ++ message

/-- Serialization as far as these two and a message that is no request are concerned. -/
def txnProtobuf : Protobuf ToServerMessage where
  serialize
    | .request r => txnBytes (r.request.ops.map ShardOp.shard) r.request.clientreqid
    | _ => [0x2a, 0x06, 0x0a, 0x04, 0x08, 0x00, 0x10, 0x00]
  parse b :=
    if b = txnBytes [0, 1] 1 then .request (txnOn [0, 1] 1)
    else if b = txnBytes [0] 2 then .request (txnOn [0] 2)
    else .syncPrepare ⟨0, 0⟩

/-- A sequencer of session 5. -/
def freshSequencer : ErisSequencer := ⟨5, fun _ => 0, by decide, fun _ => by decide⟩

/-- The object with which a server parses what it receives. -/
def serverMessage : ErisMessage := ⟨⟨0, StdMap.empty⟩, .syncPrepare ⟨0, 0⟩⟩

/-- A message for these groups as a sequencer sends it. -/
def sequenced (q : ErisSequencer) (msg : ToServerMessage) (groups : List Nat) : List UInt8 :=
  let m := ErisMessage.forGroups 0 msg groups
  (((q.receiveMessage (m.serialize txnProtobuf groups
    (List.replicate (m.serializedSize txnProtobuf) 0))).bind Prod.snd).map Prod.snd).getD []

/-- The request for both shards, which comes first. -/
def bothSequenced : List UInt8 := sequenced freshSequencer (.request (txnOn [0, 1] 1)) [0, 1]

/-- The request for shard 0. -/
def oneSequenced : List UInt8 :=
  sequenced ((freshSequencer.next 0).next 1) (.request (txnOn [0] 2)) [0]

theorem parse_two (b b' : List UInt8)
    (h : (serverMessage.parseAll txnProtobuf [b, b']).isSome = true) : ∃ m₁ m₂,
    serverMessage.parseAll txnProtobuf [b] = some m₁ ∧ m₁.parse txnProtobuf b' = some m₂ := by
  obtain ⟨m, hm⟩ := Option.isSome_iff_exists.mp h
  obtain ⟨m₁, hm₁, hm⟩ := Option.bind_eq_some_iff.mp hm
  obtain ⟨m₂, hm₂, -⟩ := Option.bind_eq_some_iff.mp hm
  exact ⟨m₁, m₂, by rw [ErisMessage.parseAll, List.foldlM_cons, hm₁]; rfl, hm₂⟩

/-- The request for both shards after that for one. -/
theorem parse_exact_iff_two : ∃ m₁ m₂, serverMessage.parseAll txnProtobuf [oneSequenced] = some m₁ ∧
    m₁.parse txnProtobuf bothSequenced = some m₂ ∧ Exact m₂.stamp bothSequenced := by
  obtain ⟨m₁, m₂, hm₁, hm₂⟩ := parse_two oneSequenced bothSequenced (by decide +kernel)
  exact ⟨m₁, m₂, hm₁, hm₂, (parse_exact_iff rfl hm₁ hm₂).mpr (by decide +kernel)⟩

/-- The request for one shard after that for both: the stamp names both still. -/
theorem parse_keeps_groups : ∃ m₁ m₂, serverMessage.parseAll txnProtobuf [bothSequenced] = some m₁ ∧
    m₁.parse txnProtobuf oneSequenced = some m₂ ∧ encoded oneSequenced = [(0, 2)] ∧
    m₂.stamp.msgNums.find? 1 = some 1 ∧ ¬ Exact m₂.stamp oneSequenced := by
  obtain ⟨m₁, m₂, hm₁, hm₂⟩ := parse_two bothSequenced oneSequenced (by decide +kernel)
  have hencoded : encoded oneSequenced = [(0, 2)] := by decide +kernel
  have hfind : m₂.stamp.msgNums.find? 1 = some 1 := by
    rw [(parse_stamp hm₂).1, parseAll_stamp hm₁]
    decide +kernel
  refine ⟨m₁, m₂, hm₁, hm₂, hencoded, hfind, fun h => ?_⟩
  rw [h.msgNums, hencoded] at hfind
  exact absurd hfind (by decide)

/-! ### Both messages through their sequencers -/

/-- A request comes out of its sequencer as it was, but for the session number and the message numbers in
    it, and a message without a header goes past the sequencer. -/
theorem orderedMessage_roundTrip {Q : Protobuf NOPaxos.ToReplicaMessage} {x : NOPaxos.RequestMessage}
    {y : NOPaxos.ToReplicaMessage} (hx : Q.parse (Q.serialize (.request x)) = .request x)
    (hy : Q.parse (Q.serialize y) = y) (mx : NOPaxos.NOPaxosMessage) (qx : NOPaxos.NOPaxosSequencer)
    (oldx oldy : List UInt8)
    (holdx : oldx.length = (NOPaxos.NOPaxosMessage.mk true (.request x)).serializedSize Q)
    {r : RequestMessage} {z : ToServerMessage} (hr : P.parse (P.serialize (.request r)) = .request r)
    (hz : P.parse (P.serialize z) = z) {m : ErisMessage} (hfresh : m.stamp.msgNums = StdMap.empty)
    (q : ErisSequencer) (sessNum : Nat) (groups order : List Nat) (hne : groups ≠ [])
    (hids : ∀ g ∈ groups, g < 2 ^ 32) (horder : Lists order groups) (hlen : order.length ≤ 255)
    (hops : ∀ op ∈ r.request.ops, op.shard ∈ groups) (old : List UInt8)
    (hold : old.length = (ErisMessage.forGroups sessNum (.request r) groups).serializedSize P) :
    (∃ buf, qx.receiveMessage ((NOPaxos.NOPaxosMessage.mk true (.request x)).serialize Q oldx) =
        some (qx.next, some buf) ∧
      mx.parse Q buf = some { mx with msg := .request { x with
        sessnum := qx.sessNum, msgnum := qx.next.msgNum } }) ∧
    (qx.receiveMessage ((NOPaxos.NOPaxosMessage.mk false y).serialize Q oldy) = some (qx, none) ∧
      mx.parse Q ((NOPaxos.NOPaxosMessage.mk false y).serialize Q oldy) = some { mx with msg := y }) ∧
    (∃ q' buf m', q.receiveMessage ((ErisMessage.forGroups sessNum (.request r) groups).serialize P order old) =
        some (q', some (order.map toInt, buf)) ∧
      q'.sessNum = q.sessNum ∧
      (∀ g, q'.msgNums g = if g ∈ groups then (q.msgNums g + 1) % 2 ^ 64 else q.msgNums g) ∧
      m.parse P buf = some m' ∧
      m'.msg = .request (r.stamped q.sessNum fun g => (q.msgNums g + 1) % 2 ^ 64) ∧
      m'.stamp.sessNum = q.sessNum ∧
      ∀ g, m'.stamp.msgNums.find? g = if g ∈ groups then some ((q.msgNums g + 1) % 2 ^ 64) else none) ∧
    q.receiveMessage ((ErisMessage.forGroups sessNum z []).serialize P [] old) = some (q, none) ∧
    m.parse P ((ErisMessage.forGroups sessNum z []).serialize P [] old) = some { m with msg := z } :=
  ⟨NOPaxos.nopaxos_roundTrip hx mx qx holdx, NOPaxos.parse_serialize_unsequenced hy mx qx oldy,
    eris_roundTrip hr hfresh q sessNum hne hids horder hlen hops hold,
    parse_serialize_unstamped hz m sessNum q old⟩

/-- Serialization of one request, and of a message that is none. -/
def requestProtobuf : Protobuf NOPaxos.ToReplicaMessage where
  serialize
    | .request _ => [0x0a, 0x0d, 0x08, 0x00, 0x10, 0x00, 0x1a, 0x07, 0x0a, 0x01, 0x78, 0x10, 0x07, 0x18, 0x01]
    | _ => [0x6a, 0x04, 0x08, 0x00, 0x10, 0x00]
  parse b :=
    if b.head? = some 0x0a then .request { sessnum := 0, msgnum := 0, req := ⟨"x", 7, 1, ""⟩ }
    else .syncPrepareRequest ⟨0, 0⟩

/-- A request of NOPaxos, and one of Eris for two shards. -/
theorem orderedMessage_roundTrip_both : ∃ buf buf' m',
    (NOPaxos.NOPaxosSequencer.mk 5 0 (by decide) (by decide)).receiveMessage
      ((NOPaxos.NOPaxosMessage.mk true (.request ⟨0, 0, ⟨"x", 7, 1, ""⟩⟩)).serialize requestProtobuf
        (List.replicate 27 0)) =
      some (⟨5, 1, by decide, by decide⟩, some buf) ∧
    (freshSequencer.receiveMessage ((ErisMessage.forGroups 0 (.request (txnOn [0, 1] 1)) [0, 1]).serialize
      txnProtobuf [1, 0] (List.replicate 57 0))).bind Prod.snd = some ([1, 0], buf') ∧
    serverMessage.parse txnProtobuf buf' = some m' ∧ m'.stamp.msgNums.find? 1 = some 1 := by
  obtain ⟨⟨buf, hbuf, -⟩, -, ⟨q', buf', m', hbuf', -, -, hm', -, -, hfind⟩, -⟩ :=
    orderedMessage_roundTrip (Q := requestProtobuf) (P := txnProtobuf) (x := ⟨0, 0, ⟨"x", 7, 1, ""⟩⟩)
      (y := .syncPrepareRequest ⟨0, 0⟩) rfl rfl ⟨false, .syncPrepareRequest ⟨0, 0⟩⟩
      ⟨5, 0, by decide, by decide⟩ (List.replicate 27 0) [] rfl (r := txnOn [0, 1] 1)
      (z := .syncPrepare ⟨0, 0⟩) rfl rfl (m := serverMessage) rfl freshSequencer 0 [0, 1] [1, 0] (by decide)
      (by decide) ⟨by decide, fun g => by simp [or_comm]⟩ (by decide) (by decide) (List.replicate 57 0) rfl
  refine ⟨buf, buf', m', hbuf, ?_, hm', hfind 1⟩
  rw [hbuf']
  rfl

/-- The numbers in the request are not what they were; a message for groups that is no request is not parsed,
    nor is one with an operation for a group that it is not for; and a message for no group is not sent. -/
theorem orderedMessage_changed :
    (serverMessage.parse txnProtobuf oneSequenced).map (fun m => decide (m.msg = .request (txnOn [0] 2))) =
      some false ∧
    (serverMessage.parse txnProtobuf (sequenced freshSequencer (.syncPrepare ⟨0, 0⟩) [0])).isNone = true ∧
    (serverMessage.parse txnProtobuf (sequenced freshSequencer (.request (txnOn [0, 1] 1)) [0])).isNone = true ∧
    (freshSequencer.receiveMessage ((ErisMessage.forGroups 0 (.request (txnOn [] 1)) []).serialize
      txnProtobuf [] [])).map Prod.snd = some none := by
  decide +kernel

end Dsnet.Eris
