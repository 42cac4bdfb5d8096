import Dsnet.Tapir.Client

/-! What the clients and the replicas of a TAPIR shard rely on. The ghost is a `History`: what has been
    asked for under each number, which replicas have executed it without being blocked, and what the client
    has decided on. Where `W` holds, a replica says OK only when it has done so or has been told, so an OK
    is decided on only when a quorum of the replicas have, whichever of the ways the decision is reached.

    `J` is an invariant of the application that every call keeps. Where `U` holds, a client decides each
    request only once. -/

namespace Dsnet.Tapir
open Handler Transaction

variable {σ : Type}

/-! ### The ghost -/

/-- What a result says. -/
def Shard.statusOf (S : Shard σ) (result : String) : Status := (S.wire.reply.parse result).status

/-- What clients have their replicas execute: a PREPARE with its text, or a COMMIT or ABORT without. -/
def Shard.Sends (S : Shard σ) (t : Txn) : Prop :=
  (t.op = .prepare → t.txn = S.txn t.txnid) ∧ (t.op ≠ .prepare → t.txn = "")

/-- A quorum of the replicas have prepared. -/
def Shard.OkQuorum (S : Shard σ) (prepared : Nat → Prop) : Prop :=
  ∃ Q, IsQuorum S.config.n S.config.quorumSize Q ∧ ∀ i ∈ Q, prepared i

/-- What has been asked for, prepared and decided on, and where it has been finalized. -/
structure History (S : Shard σ) (W : Prop) where
  request : OpId → Option Txn
  prepared : OpId → Nat → Prop
  decided : OpId → String → Prop
  finalized : OpId → Nat → Prop
  sends : ∀ {o t}, request o = some t → S.Sends t
  prepares : ∀ {o r}, decided o r → ∃ t, request o = some t ∧ t.op = .prepare
  decided_ok : ∀ {o r}, W → decided o r → S.statusOf r = .ok → S.OkQuorum (prepared o)

variable {S : Shard σ} {W : Prop}

/-- Nothing has happened. -/
def History.none : History S W where
  request _ := .none
  prepared _ _ := False
  decided _ _ := False
  finalized _ _ := False
  sends h := by cases h
  prepares h := h.elim
  decided_ok _ h := h.elim

/-- What process `p` may add: the client of a request asks and decides, a replica prepares and finalizes. -/
structure History.Advances (p : Node) (g g' : History S W) : Prop where
  request : ∀ {o t}, g.request o = some t → g'.request o = some t
  request_of_ne : ∀ {o}, p ≠ .client o.1 → g'.request o = g.request o
  prepared : ∀ {o i}, g.prepared o i → g'.prepared o i
  prepared_of_ne : ∀ {o i}, p ≠ .replica i → g'.prepared o i → g.prepared o i
  decided : ∀ {o r}, g.decided o r → g'.decided o r
  decided_of_ne : ∀ {o r}, p ≠ .client o.1 → g'.decided o r → g.decided o r
  finalized : ∀ {o i}, g.finalized o i → g'.finalized o i
  finalized_of_ne : ∀ {o i}, p ≠ .replica i → g'.finalized o i → g.finalized o i

namespace History

theorem Advances.refl (p : Node) (g : History S W) : g.Advances p g where
  request h := h
  request_of_ne _ := rfl
  prepared h := h
  prepared_of_ne _ h := h
  decided h := h
  decided_of_ne _ h := h
  finalized h := h
  finalized_of_ne _ h := h

theorem Advances.trans {p : Node} {g g' g'' : History S W} (h : g.Advances p g')
    (h' : g'.Advances p g'') : g.Advances p g'' where
  request hr := h'.request (h.request hr)
  request_of_ne hp := (h'.request_of_ne hp).trans (h.request_of_ne hp)
  prepared ha := h'.prepared (h.prepared ha)
  prepared_of_ne hp ha := h.prepared_of_ne hp (h'.prepared_of_ne hp ha)
  decided hd := h'.decided (h.decided hd)
  decided_of_ne hp hd := h.decided_of_ne hp (h'.decided_of_ne hp hd)
  finalized hf := h'.finalized (h.finalized hf)
  finalized_of_ne hp hf := h.finalized_of_ne hp (h'.finalized_of_ne hp hf)

/-- The client asks for `t` under a new number. -/
def ask (g : History S W) (o : OpId) (t : Txn) (ht : S.Sends t) (ho : g.request o = .none) :
    History S W where
  request := Function.update g.request o (some t)
  prepared := g.prepared
  decided := g.decided
  finalized := g.finalized
  sends {o' t'} h := by
    by_cases hne : o' = o
    · subst hne
      rw [Function.update_self] at h
      exact Option.some.inj h ▸ ht
    · rw [Function.update_of_ne hne] at h
      exact g.sends h
  prepares {o' r} h := by
    obtain ⟨t', ht', hop⟩ := g.prepares h
    have hne : o' ≠ o := by
      rintro rfl
      rw [ho] at ht'
      cases ht'
    exact ⟨t', by rwa [Function.update_of_ne hne], hop⟩
  decided_ok := g.decided_ok

/-- Replica `i` has prepared. -/
def prepare (g : History S W) (o : OpId) (i : Nat) : History S W where
  request := g.request
  prepared o' j := g.prepared o' j ∨ o' = o ∧ j = i
  decided := g.decided
  finalized := g.finalized
  sends := g.sends
  prepares := g.prepares
  decided_ok hW h hok := by
    obtain ⟨Q, hQ, hall⟩ := g.decided_ok hW h hok
    exact ⟨Q, hQ, fun j hj => Or.inl (hall j hj)⟩

/-- The client decides. -/
def decide (g : History S W) (o : OpId) (r : String) (hp : ∃ t, g.request o = some t ∧ t.op = .prepare)
    (hr : W → S.statusOf r = .ok → S.OkQuorum (g.prepared o)) : History S W where
  request := g.request
  prepared := g.prepared
  decided o' r' := g.decided o' r' ∨ o' = o ∧ r' = r
  finalized := g.finalized
  sends := g.sends
  prepares := by
    rintro o' r' (h | ⟨rfl, rfl⟩)
    · exact g.prepares h
    · exact hp
  decided_ok := by
    rintro o' r' hW (h | ⟨rfl, rfl⟩) hok
    · exact g.decided_ok hW h hok
    · exact hr hW hok

/-- Replica `i` finalizes. -/
def finalize (g : History S W) (o : OpId) (i : Nat) : History S W :=
  { g with finalized := fun o' j => g.finalized o' j ∨ o' = o ∧ j = i }

@[simp] theorem request_ask {g : History S W} {o : OpId} {t : Txn} {ht : S.Sends t}
    {ho : g.request o = .none} : (g.ask o t ht ho).request = Function.update g.request o (some t) := rfl

theorem advances_ask {g : History S W} {c k : Nat} {t : Txn} (ht : S.Sends t)
    (ho : g.request (c, k) = .none) : g.Advances (.client c) (g.ask (c, k) t ht ho) where
  request {o t'} h := by
    have hne : o ≠ (c, k) := by
      rintro rfl
      rw [ho] at h
      cases h
    rwa [request_ask, Function.update_of_ne hne]
  request_of_ne {o} hp := by
    have hne : o ≠ (c, k) := by
      rintro rfl
      exact hp rfl
    rw [request_ask, Function.update_of_ne hne]
  prepared h := h
  prepared_of_ne _ h := h
  decided h := h
  decided_of_ne _ h := h
  finalized h := h
  finalized_of_ne _ h := h

theorem advances_prepare {g : History S W} {o : OpId} {i : Nat} :
    g.Advances (.replica i) (g.prepare o i) where
  request h := h
  request_of_ne _ := rfl
  prepared := Or.inl
  prepared_of_ne {o' j} hp h := by
    rcases h with h | ⟨_, rfl⟩
    · exact h
    · exact (hp rfl).elim
  decided h := h
  decided_of_ne _ h := h
  finalized h := h
  finalized_of_ne _ h := h

theorem advances_decide {g : History S W} {c k : Nat} {r : String}
    (hp : ∃ t, g.request (c, k) = some t ∧ t.op = .prepare)
    (hr : W → S.statusOf r = .ok → S.OkQuorum (g.prepared (c, k))) :
    g.Advances (.client c) (g.decide (c, k) r hp hr) where
  request h := h
  request_of_ne _ := rfl
  prepared h := h
  prepared_of_ne _ h := h
  decided := Or.inl
  decided_of_ne {o r'} hp h := by
    rcases h with h | ⟨rfl, _⟩
    · exact h
    · exact (hp rfl).elim
  finalized h := h
  finalized_of_ne _ h := h

theorem advances_finalize {g : History S W} {o : OpId} {i : Nat} :
    g.Advances (.replica i) (g.finalize o i) where
  request h := h
  request_of_ne _ := rfl
  prepared h := h
  prepared_of_ne _ h := h
  decided h := h
  decided_of_ne _ h := h
  finalized := Or.inl
  finalized_of_ne {o' j} hp h := by
    rcases h with h | ⟨_, rfl⟩
    · exact h
    · exact (hp rfl).elim

end History

/-! ### What a replica keeps -/

/-- What replica `i` says of an operation: OK only when it has prepared, or that has been decided on. -/
def History.Reports (g : History S W) (o : OpId) (i : Nat) (r : String) : Prop :=
  W → S.statusOf r = .ok → g.prepared o i ∨ g.decided o r

/-- An entry of the record of a replica. A result that is finalized is a decision. -/
structure EntryOk (g : History S W) (o : OpId) (e : RecordEntry) : Prop where
  view : e.view = 0
  request : ∃ t, g.request o = some t ∧ e.request.op = S.wire.txn.serialize t ∧
    (t.op ≠ .prepare → e.result = "") ∧
    (t.op = .prepare → e.state = .finalized → g.decided o e.result)

/-- `u` is an execution of the PREPARE `t` that was not blocked. -/
def Upcall.Prepares (u : Upcall) (t : Txn) : Prop :=
  u.txn = t.txn ∧ u.arg = { txnid := t.txnid, type := .prepare } ∧ u.ret.blocked = false

instance (u : Upcall) (t : Txn) : Decidable (u.Prepares t) := inferInstanceAs (Decidable (_ ∧ _ ∧ _))

/-- A replica, also one that was stopped. -/
structure ReplicaOk (g : History S W) (i : Nat) (s : Server σ) : Prop where
  view : s.view = 0
  record : ∀ {o e}, s.record o = some e → EntryOk g o e
  prepared : ∀ {o}, g.prepared o i → ∃ t, g.request o = some t ∧ t.op = .prepare ∧
    ∃ u ∈ s.upcalls, u.Prepares t
  finalized : ∀ {o}, g.finalized o i ↔ ∃ e, s.record o = some e ∧ e.state = .finalized

/-! ### What a client keeps -/

variable (U : Prop)

/-- A super quorum of the replies are this result. -/
def Agreed (E : ClientEnv) (msgs : StdMap Nat String) (r : String) : Prop :=
  E.superQuorum ≤ msgs.toList.countP fun kv => kv.2 = r

instance (E : ClientEnv) (msgs : StdMap Nat String) (r : String) : Decidable (Agreed E msgs r) :=
  inferInstanceAs (Decidable (_ ≤ _))

/-- What a pending PREPARE has come to: the replies are reports of replicas. -/
structure ConsensusOk (g : History S W) (c k : Nat) (timer : Option TimerAction) (part : ConsensusPart) :
    Prop where
  required : part.consensusReplyQuorum.numRequired = (S.clientEnv c).superQuorum
  replies : ∀ {v i r}, (i, r) ∈ (part.consensusReplyQuorum.messages v).toList →
    i < S.config.n ∧ g.Reports (c, k) i r
  undecided : timer = some .consensusSlowPath → (∀ r, ¬ g.decided (c, k) r) ∧
    (part.consensusReplyQuorum.messages (0, k)).size < (S.clientEnv c).superQuorum
  decided : timer ≠ some .consensusSlowPath → g.decided (c, k) part.decideResult
  fast : U → timer ≠ some .consensusSlowPath → timer ≠ some .resendRequestAndConfirmation →
    Agreed (S.clientEnv c) (part.consensusReplyQuorum.messages (0, k)) part.decideResult
  slow : U → timer = some .resendRequestAndConfirmation →
    (part.consensusReplyQuorum.messages (0, k)).size < (S.clientEnv c).superQuorum ∨
      matchingResult (S.clientEnv c) (part.consensusReplyQuorum.messages (0, k)) = none ∧
      prepareDecide (S.clientEnv c) (resultSet (part.consensusReplyQuorum.messages (0, k))) =
        part.decideResult

/-- A pending request. -/
structure PendingOk (g : History S W) (c k : Nat) (req : PendingRequest) : Prop where
  id : req.clientReqId = k
  request : ∃ t, g.request (c, k) = some t ∧ req.request = S.wire.txn.serialize t ∧
    (t.op = .prepare ↔ req.kind.isLeft = true)
  timer : (req.timer = some .resendInconsistent → req.kind.isLeft = false) ∧
    (req.timer = some .resendRequestAndConfirmation → req.kind.isLeft = true)
  consensus : ∀ {part}, req.kind = .inl part → ConsensusOk U g c k req.timer part

/-- What the client has told: what its promises and continuations got has been decided. -/
structure ClientSaid (g : History S W) (c : Nat) (s : IRClient) : Prop where
  delivered : ∀ d ∈ s.delivered, d.2.1 = .ok → ∃ k t r, g.request (c, k) = some t ∧
    t.op = .prepare ∧ t.txnid = d.1.txnid ∧ g.decided (c, k) r ∧ S.statusOf r = .ok
  continued : ∀ x ∈ s.continued, g.decided (c, x.1) x.2
  one : U → ∀ {k r r'}, g.decided (c, k) r → g.decided (c, k) r' → r = r'

/-- A request whose continuation has not been invoked. -/
def IRClient.Waits (s : IRClient) (k : Nat) (req : PendingRequest) : Prop :=
  s.pendingReqs k = some req ∧ req.continuationInvoked = false

/-- A client that runs. At most one request waits: a PREPARE for its promise, or a COMMIT or ABORT. -/
structure ClientOk (g : History S W) (c : Nat) (s : IRClient) : Prop extends ClientSaid U g c s where
  view : s.view = 0
  fresh : ∀ {k}, s.lastReqId < k → g.request (c, k) = none
  pending : ∀ {k req}, s.pendingReqs k = some req → k ≤ s.lastReqId ∧ PendingOk U g c k req
  single : ∀ {k k' req req'}, s.Waits k req → s.Waits k' req' → k = k'
  prepare : ∀ {k req}, s.Waits k req → req.kind.isLeft = true → ∃ w t, s.waiting = some w ∧
    g.request (c, k) = some t ∧ t.op = .prepare ∧ t.txnid = w.txnid
  commitAbort : ∀ {k req}, s.Waits k req → req.kind.isLeft = false →
    s.waiting = none ∧ s.blockingPrepare = some false

/-! ### Packets -/

/-- What a packet tells. -/
def GoodPacket (g : History S W) (x : Cluster.Packet Node Message) : Prop :=
  match x.msg with
  | .proposeInconsistent req => x.src = .client req.clientid ∧
    ∃ t, g.request (opidOf req) = some t ∧ req.op = S.wire.txn.serialize t ∧ t.op ≠ .prepare
  | .finalizeInconsistent o => x.src = .client o.1 ∧ ∃ t, g.request o = some t ∧ t.op ≠ .prepare
  | .proposeConsensus req => x.src = .client req.clientid ∧
    ∃ t, g.request (opidOf req) = some t ∧ req.op = S.wire.txn.serialize t ∧ t.op = .prepare
  | .finalizeConsensus o r => x.src = .client o.1 ∧ g.decided o r
  | .inconsistentReply _ _ o => x.dst = .client o.1
  | .consensusReply v i o r => x.dst = .client o.1 ∧ v = 0 ∧ i < S.config.n ∧ g.Reports o i r
  | .confirm _ _ o => x.dst = .client o.1 ∧
    ∃ t, g.request o = some t ∧ (t.op = .prepare → ∃ r, g.decided o r)

/-! ### What the steps of others leave -/

section
variable {U : Prop} {p : Node} {g g' : History S W}

theorem History.Reports.mono {o : OpId} {i : Nat} {r : String} (hg : g.Advances p g')
    (h : g.Reports o i r) : g'.Reports o i r := fun hW hok => (h hW hok).imp hg.prepared hg.decided

theorem EntryOk.mono {o : OpId} {e : RecordEntry} (hg : g.Advances p g') (h : EntryOk g o e) :
    EntryOk g' o e where
  view := h.view
  request := by
    obtain ⟨t, ht, hop, hempty, hprep⟩ := h.request
    exact ⟨t, hg.request ht, hop, hempty, fun hp hfin => hg.decided (hprep hp hfin)⟩

theorem ReplicaOk.mono {i : Nat} {s : Server σ} (hg : g.Advances p g') (hp : p ≠ .replica i)
    (h : ReplicaOk g i s) : ReplicaOk g' i s where
  view := h.view
  record he := (h.record he).mono hg
  prepared ha := by
    obtain ⟨t, ht, hop, hu⟩ := h.prepared (hg.prepared_of_ne hp ha)
    exact ⟨t, hg.request ht, hop, hu⟩
  finalized {o} := Iff.trans ⟨hg.finalized_of_ne hp, hg.finalized⟩ h.finalized

theorem ConsensusOk.mono {c k : Nat} {timer : Option TimerAction} {part : ConsensusPart}
    (hg : g.Advances p g') (hdec : ∀ {r}, g'.decided (c, k) r → g.decided (c, k) r)
    (h : ConsensusOk U g c k timer part) : ConsensusOk U g' c k timer part where
  required := h.required
  replies hm := ⟨(h.replies hm).1, (h.replies hm).2.mono hg⟩
  undecided ht := ⟨fun r hr => (h.undecided ht).1 r (hdec hr), (h.undecided ht).2⟩
  decided ht := hg.decided (h.decided ht)
  fast := h.fast
  slow := h.slow

theorem PendingOk.mono {c k : Nat} {req : PendingRequest} (hg : g.Advances p g')
    (hdec : ∀ {r}, g'.decided (c, k) r → g.decided (c, k) r) (h : PendingOk U g c k req) :
    PendingOk U g' c k req where
  id := h.id
  request := by
    obtain ⟨t, ht, hreq⟩ := h.request
    exact ⟨t, hg.request ht, hreq⟩
  timer := h.timer
  consensus hk := (h.consensus hk).mono hg hdec

theorem ClientSaid.mono {c : Nat} {s : IRClient} (hg : g.Advances p g') (hp : p ≠ .client c)
    (h : ClientSaid U g c s) : ClientSaid U g' c s where
  delivered d hd hok := by
    obtain ⟨k, t, r, ht, hop, hid, hdec, hr⟩ := h.delivered d hd hok
    exact ⟨k, t, r, hg.request ht, hop, hid, hg.decided hdec, hr⟩
  continued x hx := hg.decided (h.continued x hx)
  one hU _ _ _ hr hr' := h.one hU (hg.decided_of_ne hp hr) (hg.decided_of_ne hp hr')

theorem ClientOk.mono {c : Nat} {s : IRClient} (hg : g.Advances p g') (hp : p ≠ .client c)
    (h : ClientOk U g c s) : ClientOk U g' c s where
  toClientSaid := h.toClientSaid.mono hg hp
  view := h.view
  fresh {k} hk := (hg.request_of_ne (o := (c, k)) hp).trans (h.fresh hk)
  pending hk := ⟨(h.pending hk).1, (h.pending hk).2.mono hg (hg.decided_of_ne hp)⟩
  single := h.single
  prepare hk hl := by
    obtain ⟨w, t, hw, ht, hrest⟩ := h.prepare hk hl
    exact ⟨w, t, hw, hg.request ht, hrest⟩
  commitAbort := h.commitAbort

theorem GoodPacket.mono {x : Cluster.Packet Node Message} (hg : g.Advances p g')
    (h : GoodPacket g x) : GoodPacket g' x := by
  obtain ⟨src, dst, m⟩ := x
  cases m with
  | proposeInconsistent req =>
    obtain ⟨hsrc, t, ht, hrest⟩ := h
    exact ⟨hsrc, t, hg.request ht, hrest⟩
  | finalizeInconsistent o =>
    obtain ⟨hsrc, t, ht, hop⟩ := h
    exact ⟨hsrc, t, hg.request ht, hop⟩
  | proposeConsensus req =>
    obtain ⟨hsrc, t, ht, hrest⟩ := h
    exact ⟨hsrc, t, hg.request ht, hrest⟩
  | finalizeConsensus o r => exact ⟨h.1, hg.decided h.2⟩
  | inconsistentReply v i o => exact h
  | consensusReply v i o r => exact ⟨h.1, h.2.1, h.2.2.1, h.2.2.2.mono hg⟩
  | confirm v i o =>
    obtain ⟨hdst, t, ht, hdec⟩ := h
    refine ⟨hdst, t, hg.request ht, fun hop => ?_⟩
    obtain ⟨r, hr⟩ := hdec hop
    exact ⟨r, hg.decided hr⟩

end

/-! ### The invariant -/

/-- A process that runs. -/
def Running (U : Prop) (J : σ → Prop) (g : History S W) : ∀ p, StateOf σ p → Prop
  | .client c => fun s => ClientOk U g c s
  | .replica i => fun s => ReplicaOk g i s ∧ J s.app

/-- A process that was stopped. -/
def Halted (U : Prop) (g : History S W) : ∀ p, StateOf σ p → Prop
  | .client c => fun s => ClientSaid U g c s
  | .replica i => fun s => ReplicaOk g i s

/-- The invariant of the shard. -/
def shardInvariant (S : Shard σ) (W U : Prop) (J : σ → Prop) :
    Cluster.ClusterInvariant Node (StateOf σ) Message (History S W) where
  running := Running U J
  halted := Halted U
  packet := GoodPacket
  advances := History.Advances
  refl := History.Advances.refl
  trans := History.Advances.trans
  running_mono {p _ _ q s} hg hq h := by
    cases q with
    | client c => exact ClientOk.mono hg hq.symm h
    | replica i => exact ⟨ReplicaOk.mono hg hq.symm h.1, h.2⟩
  halted_mono {p _ _ q s} hg hq h := by
    cases q with
    | client c => exact ClientSaid.mono hg hq.symm h
    | replica i => exact ReplicaOk.mono hg hq.symm h
  packet_mono := GoodPacket.mono

/-- Every call of an application keeps `J`. -/
structure Shard.KeptBy (S : Shard σ) (J : σ → Prop) : Prop where
  init : ∀ i, J (S.app i).init
  prepare : ∀ i t s, S.Sends t → t.op = .prepare → J s →
    Sat ((S.app i).invokeTransaction t.txn { txnid := t.txnid, type := .prepare }) s
      (fun _ s' _ => J s') fun _ _ => True
  finish : ∀ i t s, S.Sends t → t.op = .commit ∨ t.op = .abort → J s →
    Sat ((S.app i).invokeTransaction t.txn (inconsistentArg t)) s (fun _ s' _ => J s') fun _ _ => True

/-- Nothing has happened at the start. -/
theorem holds_initial (S : Shard σ) (W U : Prop) {J : σ → Prop} (hJ : S.KeptBy J) :
    (shardInvariant S W U J).Holds S.protocol.member History.none (Cluster.Sys.initial S.protocol) where
  running p _ _ := by
    cases p with
    | client c =>
      exact {
        delivered := fun _ hd => by cases hd
        continued := fun _ hx => by cases hx
        one := fun _ _ _ _ h => h.elim
        view := rfl
        fresh := fun _ => rfl
        pending := fun h => by cases h
        single := fun h => by cases h.1
        prepare := fun h => by cases h.1
        commitAbort := fun h => by cases h.1 }
    | replica i =>
      exact ⟨⟨rfl, fun h => (by cases h), fun h => (by cases h),
        ⟨fun h => h.elim, fun ⟨_, h, _⟩ => (by cases h)⟩⟩, hJ.init i⟩
  halted _ _ h := by cases h
  packet _ h := by cases h

end Dsnet.Tapir
