import Dsnet.Granola.ClientSteps
import Dsnet.Transaction.KVCalls

/-! Granola in locking mode: the leaders of the shards of a transaction decide one fate for it, which their
    PREPAREs make; the replies that a client is handed agree, so that none stops it; and over the key value
    store nothing is left of a transaction that its client is done with, unless its fate was CONFLICT. -/

namespace Dsnet.Granola
open Handler Transaction

variable {σ : Type} {S : Shards σ} {U : Prop}

/-! ### Runs -/

/-- A client is called with a transaction whose id no other client has used. -/
def Shards.DisjointTxnids (S : Shards σ) (s : Sys σ) : Event → Prop
  | .act (.client c) (.invoke _ _) => ∀ c' ∈ S.clients, c' ≠ c →
    ∀ x ∈ Client.invocations (s.state (.client c')), x.1 ≠ Client.txnid (s.state (.client c)) + 1
  | _ => True

instance (S : Shards σ) (s : Sys σ) (e : Event) : Decidable (S.DisjointTxnids s e) :=
  match e with
  | .act (.client c) (.invoke _ _) => inferInstanceAs (Decidable (∀ c' ∈ S.clients, c' ≠ c →
      ∀ x ∈ Client.invocations (s.state (.client c')), x.1 ≠ Client.txnid (s.state (.client c)) + 1))
  | .act (.client _) .timeout => isTrue trivial
  | .act (.client _) (.voteTimeout _) => isTrue trivial
  | .act (.replica _ _) _ => isTrue trivial
  | .deliver _ => isTrue trivial

theorem clientOk_initial (c : Nat) : ClientOk (History.none : History S U) c (Client.initial c) where
  invoked := nofun
  continued := nofun
  txnid := nofun
  last := nofun
  pending := nofun
  heard h := absurd h (MessageSet.not_has_new 1)
  one := rfl

theorem leaderOk_initial (q : Nat) :
    LeaderOk (History.none : History S U) q (Server.initial (S.serverEnv q 0)) where
  log := ⟨nofun, nofun, nofun, nofun, List.Pairwise.nil⟩
  own _ _ := rfl
  decided := nofun
  done := nofun
  finished := nofun
  app := AppState.ok_initial.said
  view := rfl
  lastOp := rfl
  committed := le_refl 0
  calls := nofun
  entries := nofun
  votes h := absurd h (MessageSet.not_has_new 1)
  required := nofun
  one := rfl
  covers := nofun
  tabled := nofun
  replied := nofun
  addresses := nofun
  appOk := AppState.ok_initial

/-- Nothing has happened yet. -/
theorem holds_initial (S : Shards σ) (U : Prop) :
    (shardsInvariant S U).Holds S.protocol.member History.none (Cluster.Sys.initial S.protocol) where
  running p _ _ := by
    rcases p with c | ⟨q, _ | i⟩
    · exact clientOk_initial c
    · exact leaderOk_initial q
    · exact ⟨rfl, fun e he => (by cases he), rfl, fun _ => rfl⟩
  halted p _ h := by cases h
  packet x hx := by cases hx

/-- What is known of a client, running or stopped. -/
theorem clientSaid_of_holds {g : History S U} {s : Sys σ}
    (hs : (shardsInvariant S U).Holds S.protocol.member g s) {c : Nat}
    (hmem : S.protocol.member (.client c) = true) : ClientSaid g c (s.state (.client c)) := by
  cases hst : s.stopped (.client c) with
  | false => exact ClientOk.toClientSaid (hs.running (.client c) hmem hst)
  | true => exact hs.halted (.client c) hmem hst

/-- A timer that fires runs. -/
theorem of_timer {α : Type} {running : Prop} [Decidable running] {x y : α}
    (h : (if running then some x else none) = some y) : running ∧ x = y := by
  split_ifs at h with hr
  exact ⟨hr, Option.some.inj h⟩

/-- The step lemma: every handler keeps the invariant. -/
theorem handler_spec (hE : S.locking = true) {g : History S U} {s : Sys σ} {e : Event} {p : Node}
    {m : Handler (StateOf σ p) (Cluster.Send Node Message) Unit}
    (hs : (shardsInvariant S U).Holds S.protocol.member g s) (hC : U → S.DisjointTxnids s e)
    (hm : e.handler S.protocol s = some ⟨p, m⟩) (hmem : S.protocol.member p = true)
    (hrun : s.stopped p = false) :
    ((shardsInvariant S U).ghost p).Spec g m (s.state p) fun _ g' t => RunningOk g' p t := by
  have hp : RunningOk g p (s.state p) := hs.running p hmem hrun
  rcases Cluster.Event.of_handler hm with ⟨i, x, -, hx, rfl, rfl⟩ | ⟨k, rfl, hact⟩
  · have hpkt : PacketOk g x := hs.packet x (List.mem_of_getElem? hx)
    obtain ⟨src, dst, msg⟩ := x
    rcases dst with c | ⟨q, _ | i⟩
    · cases msg with
      | reply m => exact Ghost.Spec.of_returning (handleReply_spec (S := S) hp hpkt)
      | _ => exact hpkt.elim
    · exact leaderReceive_spec hE hp hmem hpkt
    · exact FollowerOk.receive hE hp hpkt
  · rcases p with c | ⟨q, _ | i⟩
    · have hp : ClientOk g c (s.state (.client c)) := hp
      cases k with
      | invoke requests arg =>
        cases Option.some.inj hact
        refine invoke_spec hp (of_decide_eq_true hmem) requests arg fun hU {c' k' a} ha hid => ?_
        by_contra hne
        have hmem' : S.protocol.member (.client c') = true := decide_eq_true (g.client ha)
        exact hC hU c' (g.client ha) hne _ ((clientSaid_of_holds hs hmem').invoked ha) hid
      | timeout =>
        obtain ⟨-, rfl⟩ := of_timer hact
        cases hreq : Client.pendingRequest (s.state (.client c)) with
        | some req => exact Ghost.Spec.of_returning (sendRequest_spec hp hreq)
        | none =>
          rw [sendRequest, Ghost.spec_get_bind, Ghost.spec_ofOption_bind, hreq]
          exact ⟨fun _ h => (by cases h), fun _ => .same hp.toClientSaid⟩
      | voteTimeout opnum => cases hact
    · cases k with
      | invoke requests arg => cases hact
      | timeout =>
        obtain ⟨-, rfl⟩ := of_timer hact
        exact sendPrepare_spec hp
      | voteTimeout opnum =>
        obtain ⟨-, rfl⟩ := of_timer hact
        exact sendVoteRequest_spec hp opnum
    · -- the timers of the other replicas do not run
      have hp : FollowerOk (s.state (.replica q (i + 1))) := hp
      cases k with
      | invoke requests arg => cases hact
      | timeout =>
        exact absurd (of_timer hact).1 (by simp [hp.resends])
      | voteTimeout opnum =>
        exact absurd (of_timer hact).1 (by simp [hp.asks])

variable {C : Sys σ → Event → Prop} {past : List (Sys σ)} {s : Sys σ}

/-- The run lemma. -/
theorem invariant_of_run (hE : S.locking = true) (hC : ∀ s e, C s e → U → S.DisjointTxnids s e)
    (hr : Run (system S) C past s) :
    ∃ g : History S U, (shardsInvariant S U).Holds S.protocol.member g s := by
  obtain ⟨g, hg, -⟩ := Cluster.ClusterInvariant.of_run (holds_initial S U)
    (fun g s e p m hs he hm hmem hrun => handler_spec hE hs (hC s e he) hm hmem hrun) hr
  exact ⟨g, hg⟩

/-- The leader of shard `q`. -/
def leader (s : Sys σ) (q : Nat) : Server σ := s.state (.replica q 0)

/-- What is known of a leader, running or stopped. -/
theorem leaderSaid_of_holds {g : History S U} (hs : (shardsInvariant S U).Holds S.protocol.member g s)
    {q : Nat} (hmem : S.protocol.member (.replica q 0) = true) : LeaderSaid g q (leader s q) := by
  cases hst : s.stopped (.replica q 0) with
  | false => exact LeaderOk.toLeaderSaid (hs.running (.replica q 0) hmem hst)
  | true => exact hs.halted (.replica q 0) hmem hst

/-- What is not there logs nothing. -/
theorem member_of_log (hr : Run (system S) C past s) {q : Nat} {e : GranolaLogEntry}
    (he : e ∈ (leader s q).log) : S.protocol.member (.replica q 0) = true := by
  by_contra hno
  have hinit := Cluster.state_of_not_member hr (by simpa using hno)
  rw [leader, hinit] at he
  cases he

/-- The shards that a request is for. -/
def GranolaLogEntry.shards (e : GranolaLogEntry) : List Nat := e.request.ops.map ShardOp.shard

/-! ### Requests -/

/-- The leader of a shard logs only what a client has been called with for this shard. It logs it once, whatever
    arrives again, and the requests of a client in their order. -/
theorem logged_once (hE : S.locking = true) (hr : Run (system S) (fun _ _ => True) past s) {q : Nat}
    {e : GranolaLogEntry} (he : e ∈ (leader s q).log) :
    (∃ texts : StdMap Nat String,
      (e.txnData.txnid, texts) ∈ Client.invocations (s.state (.client e.request.clientid)) ∧
      texts.find? q = some e.request.op ∧ e.shards = texts.toList.map Prod.fst) ∧
    ∀ e' ∈ (leader s q).log, e'.request.clientid = e.request.clientid →
      (e'.request.clientreqid = e.request.clientreqid → e' = e) ∧
      (e'.opnum < e.opnum ↔ e'.request.clientreqid < e.request.clientreqid) := by
  obtain ⟨g, hs⟩ := invariant_of_run (U := False) hE (fun _ _ _ hf => hf.elim) hr
  have hlog := (leaderSaid_of_holds hs (member_of_log hr he)).log
  obtain ⟨a, txn, ha, htxn, hid, hop, hops⟩ := hlog.asked _ (Server.mem_ops he)
  refine ⟨⟨a.texts, ?_, ?_, ?_⟩, fun e' he' hc => ⟨fun hk => hlog.unique he' he (Prod.ext hc hk),
    fun hlt => hlog.lt_of_lt he' he hc hlt, fun hlt => ?_⟩⟩
  · rw [show e.txnData.txnid = a.txnid from hid]
    exact (clientSaid_of_holds hs (decide_eq_true (g.client ha))).invoked ha
  · exact htxn.trans (congrArg some hop.symm)
  · rw [GranolaLogEntry.shards, show e.request.ops = a.ops from hops, Ask.map_ops]
    rfl
  · rcases Nat.lt_trichotomy e'.opnum e.opnum with h | h | h
    · exact h
    · rw [hlog.eq_of_opnum he' he h] at hlt
      exact absurd hlt (lt_irrefl _)
    · exact absurd (hlog.lt_of_lt he he' hc.symm h) (by omega)

/-! ### Fates -/

/-- What the leader of a shard has found when it prepared the request of an entry. -/
def found (s : Sys σ) (e : GranolaLogEntry) (q : Nat) : Option Status :=
  (leader s q).ownStatus e.request.clientid e.request.clientreqid

/-- A transaction that a leader has decided has been prepared by the leaders of all its shards. It has the
    fate that they have found, at every leader that has decided it. -/
theorem decided_fate (hE : S.locking = true) (hr : Run (system S) (fun _ _ => True) past s) {q : Nat}
    {e : GranolaLogEntry} (he : e ∈ (leader s q).log) (hd : e.Decided) :
    (∀ p ∈ e.shards, (found s e p).isSome = true) ∧
      e.txnData.status = fate (e.shards.map fun p => (found s e p).getD .commit) ∧
      ∀ q' e', e' ∈ (leader s q').log → e'.reqId = e.reqId → e'.Decided →
        e'.txnData.status = e.txnData.status := by
  obtain ⟨g, hs⟩ := invariant_of_run (U := False) hE (fun _ _ _ hf => hf.elim) hr
  have hlead := leaderSaid_of_holds hs (member_of_log hr he)
  have hset := hlead.decided e he hd
  obtain ⟨a, ha, -, -, hops⟩ := hlead.log.ask_of_mem he
  have hshards : e.shards = a.shards := by rw [GranolaLogEntry.shards, hops, Ask.map_ops]
  obtain ⟨a', ha', hall⟩ := hset.1
  obtain rfl : a = a' := Option.some.inj (ha.symm.trans ha')
  have hown : ∀ p ∈ a.shards, g.own p e.request.clientid e.request.clientreqid = found s e p := by
    intro p hp
    obtain ⟨st, hst⟩ := Option.isSome_iff_exists.mp (hall p hp)
    exact (leaderSaid_of_holds hs (g.leader hst)).own _ _
  rw [hshards]
  refine ⟨fun p hp => hown p hp ▸ hall p hp, ?_, fun q' e' he' hid hd' => ?_⟩
  · rw [← hset.2, History.outcome_eq ha hall]
    congr 1
    exact List.map_congr_left fun p hp => by rw [hown p hp]
  · have hset' := (leaderSaid_of_holds hs (member_of_log hr he')).decided e' he' hd'
    obtain ⟨hc, hk⟩ := Prod.mk.inj hid
    rw [GranolaLogEntry.Settled, hc, hk] at hset'
    exact hset'.unique hset

/-- Shards of the key value store. -/
def kvShards (config : Configuration) (clients : List Nat) (E : KVEnv)
    (store : Nat → Nat → String → Option String) : Shards KVTxnServer where
  config := config
  clients := clients
  locking := true
  app q i := kvTxnServer E (store q i)

/-- Two shards of three replicas over the key value store, which start empty, and a client. -/
def twoShards : Shards KVTxnServer :=
  kvShards { n := 3, f := 1, g := 2 } [0] (.plain true) fun _ _ _ => none

/-- The text of a transaction that puts one key. -/
def putText : String := (KVEnv.plain true).message.serialize { gets := [], puts := [("k", "v")] }

/-- The client has both shards put a key: they prepare it, vote and execute it, and one reply arrives. -/
def commitOne : List Event :=
  [.act (.client 0) (.invoke ((StdMap.empty.insert 0 putText).insert 1 putText) { indep := false, ro := false }),
    .deliver 0, .deliver 3, .deliver 6, .deliver 8, .deliver 10, .deliver 11, .deliver 14, .deliver 19, .deliver 24]

theorem logged_once_one : ∃ s : Sys KVTxnServer, ∃ e ∈ (leader s 0).log, ∃ texts : StdMap Nat String,
    (e.txnData.txnid, texts) ∈ Client.invocations (s.state (.client e.request.clientid)) ∧
      texts.find? 0 = some e.request.op ∧ e.shards = texts.toList.map Prod.fst := by
  obtain ⟨past, s, hr, hs⟩ := Run.exists_of_exec (system twoShards) (fun _ _ => True) commitOne
    (fun s => (leader s 0).log.any fun _ => true) (by decide +kernel)
  obtain ⟨e, he, -⟩ := List.any_eq_true.mp hs
  exact ⟨s, e, he, (logged_once (S := twoShards) rfl hr he).1⟩

theorem decided_fate_one : ∃ s : Sys KVTxnServer, ∃ e ∈ (leader s 0).log, e.shards = [0, 1] ∧
    (∀ p ∈ e.shards, (found s e p).isSome = true) ∧
      e.txnData.status = fate (e.shards.map fun p => (found s e p).getD .commit) := by
  obtain ⟨past, s, hr, hs⟩ := Run.exists_of_exec (system twoShards) (fun _ _ => True) commitOne
    (fun s => (leader s 0).log.any fun e => e.state = .executed ∧ e.shards = [0, 1]) (by decide +kernel)
  obtain ⟨e, he, hx⟩ := List.any_eq_true.mp hs
  obtain ⟨hex, hsh⟩ : e.state = .executed ∧ e.shards = [0, 1] := of_decide_eq_true hx
  obtain ⟨hown, hst, -⟩ := decided_fate (S := twoShards) rfl hr he (Or.inl hex)
  exact ⟨s, e, he, hsh, hown, hst⟩

/-- Nothing that a client is handed stops it: the replies of all shards have one status. -/
theorem replies_agree (hE : S.locking = true) (hr : Run (system S) (fun _ _ => True) past s) {i c : Nat}
    {x : Cluster.Packet Node Message} (hx : s.net[i]? = some x) (hdst : x.dst = .client c) {s' : Sys σ}
    (hstep : (system S).step s (.deliver i) = some s') : s'.stopped (.client c) = false := by
  obtain ⟨g, hs⟩ := invariant_of_run (U := False) hE (fun _ _ _ hf => hf.elim) hr
  obtain ⟨src, dst, msg⟩ := x
  obtain rfl : dst = .client c := hdst
  obtain ⟨hmem, hrun, rfl⟩ := Cluster.Sys.step_deliver hstep hx
  have hp : ClientOk g c (s.state (.client c)) := hs.running (.client c) hmem hrun
  have hpkt := hs.packet _ (List.mem_of_getElem? hx)
  cases msg with
  | reply m =>
    have hpkt : PacketOk g ⟨src, .client c, .reply m⟩ := hpkt
    have hret := (handleReply_spec (S := S) hp hpkt).returns
    have hsome := Option.isSome_iff_ne_none.mpr hret
    simpa [Cluster.Sys.after, Shards.protocol, clientReceive] using hsome
  | _ => exact hpkt.elim

theorem replies_agree_one : ∃ s s' : Sys KVTxnServer, (system twoShards).step s (.deliver 27) = some s' ∧
    s'.stopped (.client 0) = false := by
  obtain ⟨past, s, hr, hs⟩ := Run.exists_of_exec (system twoShards) (fun _ _ => True) commitOne
    (fun s => s.net[27]?.any (fun x => x.dst = .client 0) && ((system twoShards).step s (.deliver 27)).isSome)
    (by decide +kernel)
  obtain ⟨hdst, hstep⟩ := (Bool.and_eq_true _ _).mp hs
  obtain ⟨x, hx, hd⟩ := (Option.any_eq_true _ _).mp hdst
  obtain ⟨s', hs'⟩ := Option.isSome_iff_exists.mp hstep
  exact ⟨s, s', hs', replies_agree (S := twoShards) rfl hr hx (of_decide_eq_true hd) hs'⟩

/-! ### What is left -/

/-- A transaction whose client is done with it has been executed by the leaders of all its shards, with one
    status. Unless this is CONFLICT, it is not pending at any of them and holds no lock. -/
theorem continued_released (config : Configuration) (clients : List Nat) {E : KVEnv}
    (hE : E.retryLock = true) (store : Nat → Nat → String → Option String) {past : List (Sys KVTxnServer)}
    {s : Sys KVTxnServer} (hr : Run (system (kvShards config clients E store))
      (kvShards config clients E store).DisjointTxnids past s) {c : Nat} {x : Continued}
    (hx : x ∈ Client.continued (s.state (.client c))) :
    ∃ status, (x.commit = true ↔ status = .commit) ∧ ∀ q ∈ x.requests.keys,
      (∃ e ∈ (leader s q).log, e.txnData.txnid = x.txnid ∧ e.state = .executed ∧
        e.txnData.status = status) ∧
      (status ≠ .conflict → (leader s q).app.app.Free x.txnid) := by
  obtain ⟨g, hs⟩ := invariant_of_run (S := kvShards config clients E store) (U := True) rfl
    (fun _ _ h _ => h) hr
  have hmem : (kvShards config clients E store).protocol.member (.client c) = true := by
    by_contra hno
    rw [Cluster.state_of_not_member hr (by simpa using hno)] at hx
    cases hx
  obtain ⟨k, a, status, ha, htx, hte, hlater, hdone, hset, hco⟩ := (clientSaid_of_holds hs hmem).continued x hx
  refine ⟨status, hco, fun q hq => ?_⟩
  have hq' : q ∈ a.shards := by
    rw [← hte] at hq
    exact List.mem_toFinset.mp hq
  obtain ⟨a', ha', hall⟩ := hset.1
  obtain rfl : a = a' := Option.some.inj (ha.symm.trans ha')
  obtain ⟨st, hst⟩ := Option.isSome_iff_exists.mp (hall q hq')
  have hlead := leaderSaid_of_holds hs (g.leader hst)
  obtain ⟨e, he, hid, hex⟩ := hlead.done (hdone q hq')
  obtain ⟨hc, hk⟩ := Prod.mk.inj hid
  obtain ⟨b, hb, -, htxe, -⟩ := hlead.log.ask_of_mem he
  obtain rfl : a = b := by
    rw [hc, hk, ha] at hb
    exact Option.some.inj hb
  have hstatus : e.txnData.status = status := by
    have := hlead.decided e he (Or.inl hex)
    rw [GranolaLogEntry.Settled, hc, hk] at this
    exact this.unique hset
  refine ⟨⟨e, he, htxe.trans htx, hex, hstatus⟩, fun hne => ?_⟩
  -- no other client, and no later request of this one, is about the transaction
  obtain ⟨u, hu, hty⟩ := hlead.finished e he hex (hstatus ▸ hne) fun e' he' hlt htx' => by
    exfalso
    obtain ⟨b, hb, -, htxb, -⟩ := hlead.log.ask_of_mem he'
    have heq : b.txnid = a.txnid := htxb.symm.trans (htx'.trans htxe)
    have hcc : e'.request.clientid = c := g.disjoint trivial hb ha heq
    rw [hcc] at hb
    have hkk := hlead.log.lt_of_lt he he' (hc.trans hcc.symm) hlt
    exact hlater _ _ (by omega) hb heq
  rw [htxe, htx] at hu
  have hfree := (locksSaid_of_made hlead.app.made).finished hu hty
  rcases hlead.app.app with happ | ⟨txn, arg, hno⟩
  · rw [show (leader s q).app.app = _ from happ]
    exact hfree
  · obtain ⟨y, s', o, hy, _⟩ := invokeTransaction_returns hE (locksSaid_of_made hlead.app.made).ok txn arg
    cases (congrArg Prod.fst hy).symm.trans hno

theorem continued_released_one : ∃ s : Sys KVTxnServer, ∃ x ∈ Client.continued (s.state (.client 0)),
    x.requests.keys = {0, 1} ∧ ∃ status, (x.commit = true ↔ status = .commit) ∧ ∀ q ∈ x.requests.keys,
      (∃ e ∈ (leader s q).log, e.txnData.txnid = x.txnid ∧ e.state = .executed ∧
        e.txnData.status = status) ∧
      (status ≠ .conflict → (leader s q).app.app.Free x.txnid) := by
  obtain ⟨past, s, hr, hs⟩ := Run.exists_of_exec (system twoShards) twoShards.DisjointTxnids
    (commitOne ++ [.deliver 27])
    (fun s => (Client.continued (s.state (.client 0))).any fun x => x.requests.keys = {0, 1}) (by decide +kernel)
  obtain ⟨x, hx, hk⟩ := List.any_eq_true.mp hs
  exact ⟨s, x, hx, of_decide_eq_true hk,
    continued_released { n := 3, f := 1, g := 2 } [0] rfl (fun _ _ _ => none) hr hx⟩

end Dsnet.Granola
