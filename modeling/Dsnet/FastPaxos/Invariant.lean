import Dsnet.FastPaxos.Replica

/-! Runs of Fast Paxos, which never leave view 0. The leader, replica 0, only appends to its log; a
    follower appends what clients send it, and what it changes later is changed to what the leader has.
    So a slot that agrees with the leader's log keeps agreeing (`AgreesAt.mono`), and a message that
    says so stays true.

    `safe` is whether the run is one in which commits are to be shown durable (`GoodLeader.quorum`). -/

namespace Dsnet.FastPaxos
open Handler

/-- What the messages may say about the group: each replica's log, how much it has committed, and the
    operations the clients send. -/
structure Snapshot where
  logs : Nat → List (Nat × Request)
  committed : Nat → Nat
  op : Nat → Nat → String

namespace Snapshot

/-- A request as its client sends it: its two numbers determine it. -/
structure Genuine (g : Snapshot) (req : Request) : Prop where
  op : req.op = g.op req.clientid req.clientreqid
  clientaddr : req.clientaddr = ""

/-- Replica `r` has the leader's entry at index `i`. -/
def AgreesAt (g : Snapshot) (r i : Nat) : Prop :=
  ∃ x, (g.logs r)[i]? = some x ∧ (g.logs 0)[i]? = some x

/-- Replica `r` has this request at index `i`, or else the leader's entry. -/
def HoldsAt (g : Snapshot) (r i : Nat) (req : Request) : Prop :=
  ∃ x, (g.logs r)[i]? = some x ∧ (x = (0, req) ∨ (g.logs 0)[i]? = some x)

/-- A quorum has the leader's entry at index `i`. -/
def QuorumAt (c : Configuration) (g : Snapshot) (i : Nat) : Prop :=
  ∃ Q : Finset Nat, c.quorumSize ≤ Q.card ∧ ∀ r ∈ Q, r < c.n ∧ g.AgreesAt r i

/-- Replica `r` has changed its log to `l`. -/
def write (g : Snapshot) (r : Nat) (l : List (Nat × Request)) : Snapshot :=
  { g with logs := fun i => if i = r then l else g.logs i }

/-- Replica `r` has committed `k` slots. -/
def commit (g : Snapshot) (r k : Nat) : Snapshot :=
  { g with committed := fun i => if i = r then k else g.committed i }

@[simp] theorem logs_write_self (g : Snapshot) (r : Nat) (l : List (Nat × Request)) :
    (g.write r l).logs r = l := if_pos rfl

theorem logs_write_of_ne (g : Snapshot) {r x : Nat} (l : List (Nat × Request)) (hx : x ≠ r) :
    (g.write r l).logs x = g.logs x := if_neg hx

@[simp] theorem committed_commit_self (g : Snapshot) (r k : Nat) : (g.commit r k).committed r = k :=
  if_pos rfl

end Snapshot

/-- What a step of replica `r` may change. -/
structure Advances (r : Nat) (g g' : Snapshot) : Prop where
  op : g'.op = g.op
  others : ∀ x ≠ r, g'.logs x = g.logs x ∧ g'.committed x = g.committed x
  committed : g.committed r ≤ g'.committed r
  leader : g.logs 0 <+: g'.logs 0
  slots : ∀ (i : Nat) (x : Nat × Request), (g.logs r)[i]? = some x →
    ∃ y, (g'.logs r)[i]? = some y ∧ (y = x ∨ (g'.logs 0)[i]? = some y)

/-- The Prepare and Commit messages carry the leader's entry. -/
def LogsAt (g : Snapshot) (opnum : Nat) (req : Request) : Prop :=
  1 ≤ opnum ∧ (g.logs 0)[opnum - 1]? = some (0, req)

/-- An acknowledgement of the slow path stands for the whole prefix, one of the fast path for its slot. -/
structure GoodPrepareOK (c : Configuration) (g : Snapshot) (m : PrepareOKMessage) : Prop where
  view : m.view = 0
  sender : m.replicaidx < c.n
  other : m.replicaidx ≠ 0
  opnum : 1 ≤ m.opnum
  slow : m.slowpath ≠ 0 → ∀ i < m.opnum, g.AgreesAt m.replicaidx i
  fast : m.slowpath = 0 → g.Genuine m.req ∧ g.HoldsAt m.replicaidx (m.opnum - 1) m.req

/-- A StateTransfer to a replica that has committed `c` entries carries the leader's entries from
    `a`, at or before them, to `b`. -/
structure GoodTransfer (g : Snapshot) (c : Nat) (m : StateTransferMessage) (a b : Nat) : Prop where
  view : m.view = 0
  start : a ≤ c
  logged : b ≤ (g.logs 0).length
  numbered : Log.NumberedFrom (a + 1) m.entries
  entries : m.entries.map LogEntry.content = ((g.logs 0).take b).drop a
  opnum : m.opnum ≤ max a b
  views : ∀ e ∈ m.entries, e.view = 0

/-- The messages between replicas, with who they are from and to. -/
def GoodPacket (c : Configuration) (g : Snapshot) (p : Net.Packet ToReplicaMessage) : Prop :=
  match p.msg with
  | .prepare m => p.dst ≠ 0 ∧ m.view = 0 ∧ LogsAt g m.opnum m.req
  | .prepareOK m => GoodPrepareOK c g m
  | .commit m => p.dst ≠ 0 ∧ m.view = 0 ∧ LogsAt g m.opnum m.req
  | .requestStateTransfer m =>
    ∃ r, p.src = .replica r ∧ r ≠ 0 ∧ m.view = 0 ∧ m.opnum ≤ g.committed r
  | .stateTransfer m => p.dst ≠ 0 ∧ ∃ a b, GoodTransfer g (g.committed p.dst) m a b
  | _ => False

/-! ### Moving on -/

namespace Advances
variable {r : Nat} {g g' g'' : Snapshot}

theorem refl (r : Nat) (g : Snapshot) : Advances r g g :=
  ⟨rfl, fun _ _ => ⟨rfl, rfl⟩, Nat.le_refl _, List.prefix_rfl, fun _ x hx => ⟨x, hx, Or.inl rfl⟩⟩

theorem trans (h : Advances r g g') (h' : Advances r g' g'') : Advances r g g'' where
  op := h'.op.trans h.op
  others x hx := by rw [(h'.others x hx).1, (h'.others x hx).2]; exact h.others x hx
  committed := h.committed.trans h'.committed
  leader := h.leader.trans h'.leader
  slots i x hx := by
    obtain ⟨y, hy, hyx⟩ := h.slots i x hx
    obtain ⟨z, hz, hzy⟩ := h'.slots i y hy
    refine ⟨z, hz, ?_⟩
    rcases hzy with rfl | hzL
    · exact hyx.imp_right (getElem?_mono h'.leader)
    · exact Or.inr hzL

/-- Committing more. -/
theorem commit {k : Nat} (hk : g.committed r ≤ k) : Advances r g (g.commit r k) where
  op := rfl
  others _ hx := ⟨rfl, if_neg hx⟩
  committed := by simpa using hk
  leader := List.prefix_rfl
  slots _ x hx := ⟨x, hx, Or.inl rfl⟩

/-- The leader logs more. -/
theorem lead {l : List (Nat × Request)} (hl : g.logs 0 <+: l) : Advances 0 g (g.write 0 l) where
  op := rfl
  others x hx := ⟨g.logs_write_of_ne l hx, rfl⟩
  committed := Nat.le_refl _
  leader := by simpa using hl
  slots i x hx := ⟨x, by simpa using getElem?_mono hl hx, Or.inl rfl⟩

/-- A follower changes places of its log to what the leader has. -/
theorem follow {l : List (Nat × Request)} (hr : r ≠ 0)
    (hl : ∀ (i : Nat) (x : Nat × Request), (g.logs r)[i]? = some x →
      ∃ y, l[i]? = some y ∧ (y = x ∨ (g.logs 0)[i]? = some y)) : Advances r g (g.write r l) where
  op := rfl
  others x hx := ⟨g.logs_write_of_ne l hx, rfl⟩
  committed := Nat.le_refl _
  leader := by rw [g.logs_write_of_ne l hr.symm]
  slots i x hx := by
    rw [g.logs_write_of_ne l hr.symm, g.logs_write_self]
    exact hl i x hx

theorem committed_le (h : Advances r g g') (x : Nat) : g.committed x ≤ g'.committed x := by
  by_cases hx : x = r
  · subst hx
    exact h.committed
  · exact (h.others x hx).2.ge

theorem length_le (h : Advances r g g') : (g.logs 0).length ≤ (g'.logs 0).length :=
  h.leader.length_le

/-- What a replica has at a place, it keeps or changes to the leader's. -/
theorem slot (h : Advances r g g') {q i : Nat} {x : Nat × Request} (hx : (g.logs q)[i]? = some x) :
    ∃ y, (g'.logs q)[i]? = some y ∧ (y = x ∨ (g'.logs 0)[i]? = some y) := by
  by_cases hq : q = r
  · subst hq
    exact h.slots i x hx
  · exact ⟨x, by rw [(h.others q hq).1]; exact hx, Or.inl rfl⟩

end Advances

section Mono
variable {c : Configuration} {r : Nat} {g g' : Snapshot} (hg : Advances r g g')
include hg

theorem Genuine.mono {req : Request} (h : g.Genuine req) : g'.Genuine req :=
  ⟨by rw [hg.op]; exact h.op, h.clientaddr⟩

theorem AgreesAt.mono {q i : Nat} (h : g.AgreesAt q i) : g'.AgreesAt q i := by
  obtain ⟨x, hq, h0⟩ := h
  obtain ⟨y, hy, rfl | hyL⟩ := hg.slot hq
  · exact ⟨y, hy, getElem?_mono hg.leader h0⟩
  · exact ⟨y, hy, hyL⟩

theorem HoldsAt.mono {q i : Nat} {req : Request} (h : g.HoldsAt q i req) : g'.HoldsAt q i req := by
  obtain ⟨x, hq, hx⟩ := h
  obtain ⟨y, hy, rfl | hyL⟩ := hg.slot hq
  · exact ⟨y, hy, hx.imp_right (getElem?_mono hg.leader)⟩
  · exact ⟨y, hy, Or.inr hyL⟩

theorem QuorumAt.mono {i : Nat} (h : g.QuorumAt c i) : g'.QuorumAt c i := by
  obtain ⟨Q, hcard, hQ⟩ := h
  exact ⟨Q, hcard, fun q hq => ⟨(hQ q hq).1, AgreesAt.mono hg (hQ q hq).2⟩⟩

theorem LogsAt.mono {opnum : Nat} {req : Request} (h : LogsAt g opnum req) : LogsAt g' opnum req :=
  ⟨h.1, getElem?_mono hg.leader h.2⟩

theorem GoodPrepareOK.mono {m : PrepareOKMessage} (h : GoodPrepareOK c g m) :
    GoodPrepareOK c g' m where
  view := h.view
  sender := h.sender
  other := h.other
  opnum := h.opnum
  slow hs i hi := AgreesAt.mono hg (h.slow hs i hi)
  fast hs := ⟨Genuine.mono hg (h.fast hs).1, HoldsAt.mono hg (h.fast hs).2⟩

theorem GoodTransfer.mono {k k' a b : Nat} {m : StateTransferMessage} (h : GoodTransfer g k m a b)
    (hk : k ≤ k') : GoodTransfer g' k' m a b where
  view := h.view
  start := h.start.trans hk
  logged := h.logged.trans hg.length_le
  numbered := h.numbered
  entries := by
    obtain ⟨t, ht⟩ := hg.leader
    rw [h.entries, ← ht, List.take_append_of_le_length h.logged]
  opnum := h.opnum
  views := h.views

theorem GoodPacket.mono {p : Net.Packet ToReplicaMessage} (h : GoodPacket c g p) :
    GoodPacket c g' p := by
  unfold GoodPacket at h ⊢
  split at h
  · exact ⟨h.1, h.2.1, LogsAt.mono hg h.2.2⟩
  · exact GoodPrepareOK.mono hg h
  · exact ⟨h.1, h.2.1, LogsAt.mono hg h.2.2⟩
  · obtain ⟨q, hq, h0, hv, ho⟩ := h
    exact ⟨q, hq, h0, hv, ho.trans (hg.committed_le q)⟩
  · obtain ⟨h0, a, b, ht⟩ := h
    exact ⟨h0, a, b, GoodTransfer.mono hg ht (hg.committed_le _)⟩
  · exact h.elim

end Mono

/-! ### Replicas -/

/-- What holds of every replica that runs, when its first `k` slots agree with the leader's. -/
structure Node (g : Snapshot) (r k : Nat) (s : Replica) : Prop where
  view : s.view = 0
  status : s.status = .normal
  log : s.log.contents = g.logs r
  views : ∀ x ∈ g.logs r, x.1 = 0
  fast : s.lastFastPath = s.log.entries.length
  agrees : ∀ i < k, g.AgreesAt r i
  slow : s.lastSlowPath ≤ k
  committed : s.lastCommitted = g.committed r
  committed_le : s.lastCommitted ≤ k
  executed : s.executed = (opnumbered (g.logs 0)).take s.lastCommitted

/-- What holds of a replica that follows. -/
structure GoodFollower (g : Snapshot) (r : Nat) (s : Replica) : Prop
    extends Node g r s.lastSlowPath s where
  pending : ∀ x ∈ s.pendingPrepares, x.2.view = 0 ∧ LogsAt g x.2.opnum x.2.req

/-- The leader's log: all in view 0, the requests of a client in increasing order. -/
structure GoodLog (l : List (Nat × Request)) : Prop where
  view : ∀ x ∈ l, x.1 = 0
  increasing : l.Pairwise fun x y => x.2.clientid = y.2.clientid → x.2.clientreqid < y.2.clientreqid

/-- What holds of the leader. -/
structure GoodLeader (c : Configuration) (safe : Prop) (g : Snapshot) (s : Replica) : Prop
    extends Node g 0 s.lastSlowPath s where
  full : s.lastSlowPath = s.log.entries.length
  good : GoodLog (g.logs 0)
  genuine : ∀ x ∈ g.logs 0, g.Genuine x.2
  table : ∀ x ∈ g.logs 0, x.2.clientreqid ≤ (s.clientEntry x.2.clientid).lastReqId ∧
    s.clientTable x.2.clientid ≠ none
  unsent : s.lastPrepare = none → s.lastSlowPath = 0
  lastPrepare : ∀ p, s.lastPrepare = some p → p.view = 0 ∧ LogsAt g p.opnum p.req
  pendingOKs : ∀ x ∈ s.pendingPrepareOKs, GoodPrepareOK c g x.2 ∧ s.lastSlowPath < x.2.opnum
  slowRequired : s.slowPrepareOKQuorum.numRequired = c.quorumSize - 1
  fastRequired : s.fastPrepareOKQuorum.numRequired = c.fastQuorumSize - 1
  slowAcks : ∀ k, ∀ x ∈ (s.slowPrepareOKQuorum.messages (0, k)).toList,
    x.1 ≠ 0 ∧ x.1 < c.n ∧ ∀ i < k, g.AgreesAt x.1 i
  fastAcks : ∀ k, ∀ x ∈ (s.fastPrepareOKQuorum.messages (0, k)).toList,
    x.1 ≠ 0 ∧ x.1 < c.n ∧ 1 ≤ k ∧ k ≤ s.lastSlowPath ∧ g.AgreesAt x.1 (k - 1)
  quorum : safe → ∀ i < s.lastCommitted, g.QuorumAt c i

/-- What holds of a replica that runs. -/
def Running (c : Configuration) (safe : Prop) (g : Snapshot) (r : Nat) (s : Replica) : Prop :=
  if r = 0 then GoodLeader c safe g s else GoodFollower g r s

/-- What still holds of a replica that was stopped. -/
structure Halted (c : Configuration) (safe : Prop) (g : Snapshot) (r : Nat) (s : Replica) : Prop where
  log : s.log.contents = g.logs r
  executed : ∃ k ≤ (g.logs 0).length, s.executed = (opnumbered (g.logs 0)).take k
  good : r = 0 → GoodLog (g.logs 0)
  quorum : r = 0 → safe → ∀ i < s.lastCommitted, g.QuorumAt c i

theorem Node.length_le {g : Snapshot} {r k : Nat} {s : Replica} (h : Node g r k s) :
    k ≤ (g.logs 0).length ∧ k ≤ s.log.entries.length := by
  cases k with
  | zero => exact ⟨Nat.zero_le _, Nat.zero_le _⟩
  | succ k =>
    obtain ⟨x, hr, h0⟩ := h.agrees k (Nat.lt_succ_self k)
    have h1 := (List.getElem?_eq_some_iff.mp hr).1
    have h2 := (List.getElem?_eq_some_iff.mp h0).1
    rw [← h.log, Log.length_contents] at h1
    omega

/-- A replica that follows may be stopped at any time. -/
theorem Node.halted {c : Configuration} {safe : Prop} {g : Snapshot} {r k : Nat} {s t : Replica}
    (h : Node g r k s) (hr : r ≠ 0) (hlog : t.log.contents = s.log.contents)
    (hup : t.upcalls = s.upcalls) : Halted c safe g r t where
  log := hlog.trans h.log
  executed := ⟨s.lastCommitted, h.committed_le.trans h.length_le.1, by
    rw [Replica.executed, hup]
    exact h.executed⟩
  good h0 := absurd h0 hr
  quorum h0 := absurd h0 hr

theorem GoodLeader.halted {c : Configuration} {safe : Prop} {g : Snapshot} {r : Nat} {s t : Replica}
    (h : GoodLeader c safe g s) (hr : r = 0) (hlog : t.log.contents = s.log.contents)
    (hup : t.upcalls = s.upcalls) (hc : t.lastCommitted = s.lastCommitted) : Halted c safe g r t where
  log := hr ▸ hlog.trans h.log
  executed := ⟨s.lastCommitted, h.committed_le.trans h.toNode.length_le.1, by
    rw [Replica.executed, hup]
    exact h.executed⟩
  good _ := h.good
  quorum _ := hc ▸ h.quorum

/-- What replica `r` does leaves the others as good as they were. -/
theorem Node.mono {r x k : Nat} {g g' : Snapshot} {s : Replica} (h : Node g x k s)
    (hg : Advances r g g') (hx : x ≠ r) : Node g' x k s where
  view := h.view
  status := h.status
  log := by rw [(hg.others x hx).1]; exact h.log
  views := by rw [(hg.others x hx).1]; exact h.views
  fast := h.fast
  agrees i hi := AgreesAt.mono hg (h.agrees i hi)
  slow := h.slow
  committed := by rw [(hg.others x hx).2]; exact h.committed
  committed_le := h.committed_le
  executed := by
    rw [h.executed, take_opnumbered_mono hg.leader (h.committed_le.trans h.length_le.1)]

theorem GoodLeader.mono {c : Configuration} {safe : Prop} {r : Nat} {g g' : Snapshot} {s : Replica}
    (h : GoodLeader c safe g s) (hg : Advances r g g') (hr : 0 ≠ r) : GoodLeader c safe g' s where
  toNode := h.toNode.mono hg hr
  full := h.full
  good := by rw [(hg.others 0 hr).1]; exact h.good
  genuine := by rw [(hg.others 0 hr).1]; exact fun x hx => Genuine.mono hg (h.genuine x hx)
  table := by rw [(hg.others 0 hr).1]; exact h.table
  unsent := h.unsent
  lastPrepare p hp := ⟨(h.lastPrepare p hp).1, LogsAt.mono hg (h.lastPrepare p hp).2⟩
  pendingOKs x hx := ⟨GoodPrepareOK.mono hg (h.pendingOKs x hx).1, (h.pendingOKs x hx).2⟩
  slowRequired := h.slowRequired
  fastRequired := h.fastRequired
  slowAcks k x hx := by
    obtain ⟨h0, hn, ha⟩ := h.slowAcks k x hx
    exact ⟨h0, hn, fun i hi => AgreesAt.mono hg (ha i hi)⟩
  fastAcks k x hx := by
    obtain ⟨h0, hn, hk, hk', ha⟩ := h.fastAcks k x hx
    exact ⟨h0, hn, hk, hk', AgreesAt.mono hg ha⟩
  quorum hs i hi := QuorumAt.mono hg (h.quorum hs i hi)

theorem Running.mono {c : Configuration} {safe : Prop} {r x : Nat} {g g' : Snapshot} {s : Replica}
    (hg : Advances r g g') (hx : x ≠ r) (h : Running c safe g x s) : Running c safe g' x s := by
  unfold Running at h ⊢
  split_ifs at h ⊢ with h0
  · subst h0
    exact h.mono hg hx
  · exact ⟨h.toNode.mono hg hx, fun y hy => ⟨(h.pending y hy).1, LogsAt.mono hg (h.pending y hy).2⟩⟩

theorem Halted.mono {c : Configuration} {safe : Prop} {r x : Nat} {g g' : Snapshot} {s : Replica}
    (hg : Advances r g g') (hx : x ≠ r) (h : Halted c safe g x s) : Halted c safe g' x s where
  log := by rw [(hg.others x hx).1]; exact h.log
  executed := by
    obtain ⟨k, hk, he⟩ := h.executed
    exact ⟨k, hk.trans hg.length_le, by rw [he, take_opnumbered_mono hg.leader hk]⟩
  good h0 := by
    subst h0
    rw [(hg.others 0 hx).1]
    exact h.good rfl
  quorum h0 hs i hi := QuorumAt.mono hg (h.quorum h0 hs i hi)

/-- The invariant of the group. -/
def invariant (c : Configuration) (safe : Prop) : Net.GhostInvariant Replica ToReplicaMessage Snapshot where
  running := Running c safe
  halted := Halted c safe
  packet := GoodPacket c
  advances := Advances
  refl := Advances.refl
  trans := Advances.trans
  running_mono := Running.mono
  halted_mono := Halted.mono
  packet_mono hg h := GoodPacket.mono hg h

end Dsnet.FastPaxos
