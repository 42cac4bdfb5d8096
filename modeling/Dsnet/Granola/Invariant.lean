import Dsnet.Granola.History

/-! The invariant of the clients and the shards: what each process keeps, and what the packets say. -/

namespace Dsnet.Granola
open Handler Transaction

variable {σ : Type} {S : Shards σ} {U : Prop}

/-! ### The log of a leader -/

/-- What an entry is about. -/
structure Logged where
  opnum : Nat
  txnid : Nat
  request : SequencedRequest

namespace Logged

/-- The client and its number for the request. -/
abbrev reqId (x : Logged) : Nat × Nat := (x.request.clientid, x.request.clientreqid)

end Logged

/-- What the entry is about. -/
def GranolaLogEntry.logged (e : GranolaLogEntry) : Logged := ⟨e.opnum, e.txnData.txnid, e.request⟩

/-- What the entries of the log are about. -/
def Server.ops (s : Server σ) : List Logged := s.log.map GranolaLogEntry.logged

/-- The log of the leader of shard `q`: it has what it was asked for, at most once and in order. -/
structure LogOk (g : History S U) (q : Nat) (s : Server σ) : Prop where
  asked : ∀ x ∈ s.ops, g.Asked q x.txnid x.request
  numbered : ∀ {i x}, s.ops[i]? = some x → x.opnum = i + 1
  listed : ∀ x ∈ s.ops, s.clientReqMap x.reqId = some x.opnum
  found : ∀ {r n}, s.clientReqMap r = some n → ∃ x ∈ s.ops, x.opnum = n ∧ x.reqId = r
  sorted : s.ops.Pairwise fun x y =>
    x.request.clientid = y.request.clientid → x.request.clientreqid < y.request.clientreqid

/-- The status that a server has found when it prepared what a client has asked for. -/
def Server.ownStatus (s : Server σ) (c k : Nat) : Option Status :=
  (s.clientReqMap (c, k)).bind fun n =>
    (s.app.upcalls.find? fun u => u.opnum = n ∧ u.arg.type = .prepare).map fun u => prepareStatus u.ret

/-- The transaction of the entry is decided: it is executed, or the votes of its shards were enough. -/
def GranolaLogEntry.Decided (e : GranolaLogEntry) : Prop :=
  e.state = .executed ∨ (e.txnData.tsDecided = true ∧ 1 < e.request.ops.length)

/-- What this says about the entry's transaction for the ghost. -/
abbrev GranolaLogEntry.Settled (g : History S U) (e : GranolaLogEntry) : Prop :=
  g.Settled e.request.clientid e.request.clientreqid e.txnData.status

/-- The last call about this transaction has finished it. -/
def Finished (calls : List Call) (txnid : Nat) : Prop :=
  ∃ u, lastCall calls txnid = some u ∧ (u.arg.type = .commit ∨ u.arg.type = .abort)

/-- The leader of shard `q`, also one that was stopped: the ghost has what it has found, and it has decided
    what the votes say. -/
structure LeaderSaid (g : History S U) (q : Nat) (s : Server σ) : Prop where
  log : LogOk g q s
  own : ∀ c k, g.own q c k = s.ownStatus c k
  decided : ∀ e ∈ s.log, e.Decided → e.Settled g
  done : ∀ {c k}, g.done q c k → ∃ e ∈ s.log, e.reqId = (c, k) ∧ e.state = .executed
  finished : ∀ e ∈ s.log, e.state = .executed → e.txnData.status ≠ .conflict →
    (∀ e' ∈ s.log, e.opnum < e'.opnum → e'.txnData.txnid = e.txnData.txnid → e'.state = .prepared) →
    Finished s.app.upcalls e.txnData.txnid
  app : s.app.Said (S.app q 0)

/-- An entry of the leader of shard `q`, with whether it has been committed. -/
structure EntryOk (g : History S U) (q : Nat) (committed : Prop) (e : GranolaLogEntry) : Prop where
  view : e.view = 0
  fresh : ¬ committed → e.state = .prepared ∧ (e.txnData.tsDecided = true → e.request.ops.length = 1)
  voted : e.state ≠ .prepared →
    g.Voted q e.request.clientid e.request.clientreqid e.txnData.status
  waits : e.state ≠ .prepared → e.txnData.tsDecided = false →
    g.own q e.request.clientid e.request.clientreqid = some e.txnData.status

/-- The leader of shard `q`, between two handlers. -/
structure LeaderOk (g : History S U) (q : Nat) (s : Server σ) : Prop extends LeaderSaid g q s where
  view : s.view = 0
  lastOp : s.lastOp = s.log.length
  committed : s.lastCommitted ≤ s.log.length
  calls : ∀ u ∈ s.app.upcalls, u.opnum ≤ s.lastCommitted
  entries : ∀ {i e}, s.log[i]? = some e → EntryOk g q (i < s.lastCommitted) e
  votes : ∀ {c k p r m}, s.voteQuorum.Has (c, k) p r m → r = 0 ∧ p ≠ q ∧ g.Voted p c k m.status
  required : ∀ {c k n}, s.voteQuorum.required (c, k) = some n →
    ∃ a, g.ask c k = some a ∧ n = a.shards.length - 1
  one : s.voteQuorum.replicaRequired = 1
  covers : ∀ e ∈ s.log, ∃ cte, s.clientTable e.request.clientid = some cte ∧
    e.request.clientreqid ≤ cte.lastReqId
  tabled : ∀ e ∈ s.log, e.state ≠ .prepared → ∀ {cte}, s.clientTable e.request.clientid = some cte →
    cte.lastReqId = e.request.clientreqid →
    cte.reply.clientreqid = e.request.clientreqid ∧ cte.reply.shardNum = q
  replied : ∀ {c cte}, s.clientTable c = some cte → cte.replied = true →
    cte.reply.clientreqid = cte.lastReqId ∧ cte.reply.shardNum = q ∧
    g.Replied q c cte.lastReqId cte.reply.status
  addresses : ∀ {c addr}, s.clientAddresses c = some addr → addr = .client c
  appOk : s.app.Ok (S.app q 0)

/-! ### The other replicas -/

/-- Any other replica, between two handlers: it never takes itself for the leader. -/
structure FollowerOk (s : Server σ) : Prop where
  view : s.view = 0
  entries : ∀ e ∈ s.log, e.view = 0
  resends : s.resendPrepareTimeout = false
  asks : ∀ n, s.voteTimeouts n = false

/-! ### What a client keeps -/

/-- What the shards are asked for. -/
def PendingRequest.ask (req : PendingRequest) : Ask := { txnid := req.txnid, texts := req.requests }

/-- A transaction that client `c` is done with: the last time it asked all shards have executed it, with one
    fate. -/
def ContinuedOk (g : History S U) (c : Nat) (x : Continued) : Prop :=
  ∃ k a status, g.ask c k = some a ∧ a.txnid = x.txnid ∧ a.texts = x.requests ∧
    (∀ k' b, k < k' → g.ask c k' = some b → b.txnid ≠ a.txnid) ∧
    (∀ q ∈ a.shards, g.done q c k) ∧ g.Settled c k status ∧ (x.commit = true ↔ status = .commit)

/-- Client `c`, also one that was stopped: it asks for what it has been called with. -/
structure ClientSaid (g : History S U) (c : Nat) (s : Client) : Prop where
  invoked : ∀ {k a}, g.ask c k = some a → (a.txnid, a.texts) ∈ s.invocations
  continued : ∀ x ∈ s.continued, ContinuedOk g c x

/-- Client `c`, between two handlers. -/
structure ClientOk (g : History S U) (c : Nat) (s : Client) : Prop extends ClientSaid g c s where
  txnid : ∀ x ∈ s.invocations, x.1 ≤ s.txnid
  last : ∀ {k a}, g.ask c k = some a → k ≤ s.lastReqId
  pending : ∀ {req}, s.pendingRequest = some req → req.clientReqId = s.lastReqId ∧
    g.ask c s.lastReqId = some req.ask ∧ s.replySet.required s.lastReqId = some req.requests.size ∧
    req.replies = StdMap.empty ∧ ∀ x ∈ s.continued, x.txnid ≠ req.txnid
  heard : ∀ {k q r m}, s.replySet.Has k q r m → r = 0 ∧ g.Replied q c k m.status
  one : s.replySet.replicaRequired = 1

/-! ### The invariant -/

/-- What a packet says. -/
def PacketOk (g : History S U) (x : Cluster.Packet Node Message) : Prop :=
  match x.dst, x.msg with
  | .client c, .reply m => g.Replied m.shardNum c m.clientreqid m.status
  | .client _, _ => False
  | .replica q _, .request txnid _ _ req => x.src = .client req.clientid ∧ g.Asked q txnid req
  | .replica _ _, .prepare view _ _ _ _ _ _ => view = 0
  | .replica q _, .vote v => v.shardNum ≠ q ∧ g.Voted v.shardNum v.clientid v.clientreqid v.status ∧
    ∃ a, g.ask v.clientid v.clientreqid = some a ∧ v.nshards = a.shards.length
  | .replica q _, .voteRequest _ _ => ∃ p i, x.src = .replica p i ∧ p ≠ q
  | .replica _ _, .finalTimestamp view _ _ _ => view = 0
  | .replica _ _, .prepareOK .. => True
  | .replica _ _, .commit .. => True
  | .replica _ _, .reply _ => True

/-- A process that runs. -/
def RunningOk (g : History S U) : ∀ p, StateOf σ p → Prop
  | .client c, s => ClientOk g c s
  | .replica q 0, s => LeaderOk g q s
  | .replica _ (_ + 1), s => FollowerOk s

/-- A process that was stopped. -/
def HaltedOk (g : History S U) : ∀ p, StateOf σ p → Prop
  | .client c, s => ClientSaid g c s
  | .replica q 0, s => LeaderSaid g q s
  | .replica _ (_ + 1), _ => True

variable {g g' : History S U} {p : Node} {q c : Nat}

/-- The log and what the ghost says about it stay. -/
theorem LogOk.congr {s s' : Server σ} (h : LogOk g q s) (hg : g.Advances p g')
    (hops : s'.ops = s.ops)
    (hmap : s'.clientReqMap = s.clientReqMap) : LogOk g' q s' where
  asked := by
    rw [hops]
    exact fun x hx => (h.asked x hx).mono hg
  numbered := hops ▸ h.numbered
  listed := by
    rw [hops, hmap]
    exact h.listed
  found := by
    rw [hops, hmap]
    exact h.found
  sorted := hops ▸ h.sorted

theorem LogOk.mono {s : Server σ} (h : LogOk g q s) (hg : g.Advances p g') : LogOk g' q s :=
  h.congr hg rfl rfl

theorem LeaderSaid.mono {s : Server σ} (h : LeaderSaid g q s) (hg : g.Advances p g')
    (hp : Node.replica q 0 ≠ p) : LeaderSaid g' q s where
  log := h.log.mono hg
  own c k := (hg.own_of_ne hp.symm).trans (h.own c k)
  decided e he hd := (h.decided e he hd).mono hg
  done hd := h.done (hg.done_of_ne hp.symm hd)
  finished := h.finished
  app := h.app

theorem EntryOk.mono {committed : Prop} {e : GranolaLogEntry} (h : EntryOk g q committed e)
    (hg : g.Advances p g') : EntryOk g' q committed e where
  view := h.view
  fresh := h.fresh
  voted hs := (h.voted hs).mono hg
  waits hs ht := hg.own (h.waits hs ht)

theorem LeaderOk.mono {s : Server σ} (h : LeaderOk g q s) (hg : g.Advances p g')
    (hp : Node.replica q 0 ≠ p) : LeaderOk g' q s where
  toLeaderSaid := h.toLeaderSaid.mono hg hp
  view := h.view
  lastOp := h.lastOp
  committed := h.committed
  calls := h.calls
  entries he := (h.entries he).mono hg
  votes hv := by
    obtain ⟨hr, hne, hvoted⟩ := h.votes hv
    exact ⟨hr, hne, hvoted.mono hg⟩
  required hn := by
    obtain ⟨a, ha, hna⟩ := h.required hn
    exact ⟨a, hg.ask ha, hna⟩
  one := h.one
  covers := h.covers
  tabled := h.tabled
  replied hc hr := by
    obtain ⟨hid, hsh, hrep⟩ := h.replied hc hr
    exact ⟨hid, hsh, hrep.mono hg⟩
  addresses := h.addresses
  appOk := h.appOk

theorem ContinuedOk.mono {x : Continued} (h : ContinuedOk g c x) (hg : g.Advances p g')
    (hp : Node.client c ≠ p) : ContinuedOk g' c x := by
  obtain ⟨k, a, status, ha, hid, ht, hlater, hall, hst, hc⟩ := h
  refine ⟨k, a, status, hg.ask ha, hid, ht, fun k' b hk hb => ?_, fun q hq => hg.done (hall q hq),
    hst.mono hg, hc⟩
  exact hlater k' b hk (hg.ask_of_ne hp.symm ▸ hb)

theorem ClientSaid.mono {s : Client} (h : ClientSaid g c s) (hg : g.Advances p g')
    (hp : Node.client c ≠ p) : ClientSaid g' c s where
  invoked ha := h.invoked (hg.ask_of_ne hp.symm ▸ ha)
  continued x hx := (h.continued x hx).mono hg hp

theorem ClientOk.mono {s : Client} (h : ClientOk g c s) (hg : g.Advances p g')
    (hp : Node.client c ≠ p) : ClientOk g' c s where
  toClientSaid := h.toClientSaid.mono hg hp
  txnid := h.txnid
  last ha := h.last (hg.ask_of_ne hp.symm ▸ ha)
  pending hreq := by
    obtain ⟨hid, hask, hrest⟩ := h.pending hreq
    exact ⟨hid, hg.ask hask, hrest⟩
  heard hh := (h.heard hh).imp_right fun hr => hr.mono hg
  one := h.one

theorem PacketOk.mono {x : Cluster.Packet Node Message} (h : PacketOk g x) (hg : g.Advances p g') :
    PacketOk g' x := by
  obtain ⟨src, c | ⟨q, i⟩, msg⟩ := x
  · cases msg with
    | reply m => exact History.Replied.mono h hg
    | _ => exact h
  · cases msg with
    | request txnid indep ro req => exact ⟨h.1, h.2.mono hg⟩
    | vote v =>
      obtain ⟨hne, hvoted, a, ha, hn⟩ := h
      exact ⟨hne, hvoted.mono hg, a, hg.ask ha, hn⟩
    | _ => exact h

/-- The invariant of the clients and the shards. -/
def shardsInvariant (S : Shards σ) (U : Prop) :
    Cluster.ClusterInvariant Node (StateOf σ) Message (History S U) where
  running := RunningOk
  halted := HaltedOk
  packet := PacketOk
  advances := History.Advances
  refl := History.Advances.refl
  trans := History.Advances.trans
  running_mono {p g g' q s} hg hp h := by
    rcases q with c | ⟨q, _ | i⟩
    · exact ClientOk.mono h hg hp
    · exact LeaderOk.mono h hg hp
    · exact h
  halted_mono {p g g' q s} hg hp h := by
    rcases q with c | ⟨q, _ | i⟩
    · exact ClientSaid.mono h hg hp
    · exact LeaderSaid.mono h hg hp
    · trivial
  packet_mono hg h := h.mono hg

end Dsnet.Granola
