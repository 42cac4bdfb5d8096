import Dsnet.Spanner.ClientSteps
import Dsnet.Transaction.KVCalls

/-! Two-phase commit over the key value store is atomic and isolated: the leaders of the shards of a
    transaction execute the same decision, a COMMIT only after all have prepared, and a transaction that
    is prepared at a leader keeps its locks until it is decided there. -/

namespace Dsnet.Spanner
open Handler Transaction

variable {σ : Type} {S : Shards σ}

/-! ### Runs -/

/-- A client is called with a transaction whose id no other client has used. -/
def Shards.DisjointTxnids (S : Shards σ) (s : Sys σ) : Event → Prop
  | .act (.client c) (.invoke _) => ∀ c' ∈ S.clients, c' ≠ c →
    ∀ x ∈ Client.invocations (s.state (.client c')), x.1 ≠ Client.txnid (s.state (.client c)) + 1
  | _ => True

instance (S : Shards σ) (s : Sys σ) (e : Event) : Decidable (S.DisjointTxnids s e) :=
  match e with
  | .act (.client c) (.invoke _) => inferInstanceAs (Decidable (∀ c' ∈ S.clients, c' ≠ c →
      ∀ x ∈ Client.invocations (s.state (.client c')), x.1 ≠ Client.txnid (s.state (.client c)) + 1))
  | .act (.client _) .timeout => isTrue trivial
  | .act (.replica _ _) _ => isTrue trivial
  | .deliver _ => isTrue trivial

theorem clientOk_initial (c : Nat) : ClientOk (History.none : History S) c (Client.initial c) where
  invoked h := by cases h
  asked x hx := by cases hx
  txnid x hx := by cases hx
  last h := by cases h
  pending h := by cases h
  idle _ := Or.inl rfl
  heard h := absurd h (MessageSet.not_has_new 1)
  one := rfl

theorem leaderOk_initial (q : Nat) :
    LeaderOk (History.none : History S) q (Server.initial (S.serverEnv q 0)) where
  asked x hx := by cases hx
  sorted := List.Pairwise.nil
  calls h := by cases h
  results h := by cases h
  app := AppState.ok_initial.said
  view := rfl
  entries e he := by cases he
  committed := rfl
  covers x hx := by cases hx
  replied h := by cases h
  addresses h := by cases h
  appOk := AppState.ok_initial

/-- Nothing has happened yet. -/
theorem holds_initial (S : Shards σ) :
    (shardsInvariant S).Holds S.protocol.member History.none (Cluster.Sys.initial S.protocol) where
  running p _ _ := by
    rcases p with c | ⟨q, _ | i⟩
    · exact clientOk_initial c
    · exact leaderOk_initial q
    · exact ⟨rfl, fun e he => by cases he⟩
  halted p _ h := by cases h
  packet x hx := by cases hx

/-- The step lemma: every handler keeps the invariant. -/
theorem handler_spec {g : History S} {s : Sys σ} {e : Event} {p : Node}
    {m : Handler (StateOf σ p) (Cluster.Send Node Message) Unit}
    (hs : (shardsInvariant S).Holds S.protocol.member g s) (hC : S.DisjointTxnids s e)
    (hm : e.handler S.protocol s = some ⟨p, m⟩) (hmem : S.protocol.member p = true)
    (hrun : s.stopped p = false) :
    ((shardsInvariant S).ghost p).Spec g m (s.state p) fun _ g' t => RunningOk g' p t := by
  have hp : RunningOk g p (s.state p) := hs.running p hmem hrun
  rcases Cluster.Event.of_handler hm with ⟨i, x, -, hx, rfl, rfl⟩ | ⟨k, rfl, hact⟩
  · have hpkt : PacketOk g x := hs.packet x (List.mem_of_getElem? hx)
    obtain ⟨src, dst, msg⟩ := x
    rcases dst with c | ⟨q, _ | i⟩
    · have hp : ClientOk g c (s.state (.client c)) := hp
      cases msg with
      | reply m => exact handleReply_spec hp (hpkt c rfl)
      | _ => exact Ghost.spec_abort.mpr (.same hp.toClientSaid)
    · exact leaderReceive_spec hp hmem hpkt
    · exact followerReceive_spec hp hpkt
  · rcases p with c | ⟨q, _ | i⟩
    · have hp : ClientOk g c (s.state (.client c)) := hp
      cases k with
      | invoke requests =>
        cases Option.some.inj hact
        refine invoke_spec hp (of_decide_eq_true hmem) requests fun {c' k' a} ha hid => ?_
        by_contra hne
        have hmem' : S.protocol.member (.client c') = true := decide_eq_true (g.client ha)
        have hsaid : ClientSaid g c' (s.state (.client c')) := by
          cases hst : s.stopped (.client c') with
          | false => exact ClientOk.toClientSaid (hs.running (.client c') hmem' hst)
          | true => exact hs.halted (.client c') hmem' hst
        exact hC c' (g.client ha) hne _ (hsaid.invoked ha) hid
      | timeout =>
        have hact' : (if (s.state (.client c)).requestTimeout then
          some (sendRequest (S.clientEnv c)) else none) = some m := hact
        split_ifs at hact'
        cases Option.some.inj hact'
        cases hreq : Client.pendingRequest (s.state (.client c)) with
        | some req => exact sendRequest_spec req hp hreq
        | none =>
          rw [sendRequest, Ghost.spec_get_bind, Ghost.spec_ofOption_bind, hreq]
          exact ⟨fun _ h => (by cases h), fun _ => .same hp.toClientSaid⟩
    · cases k with
      | invoke requests => cases hact
      | timeout =>
        have hact' : (if (s.state (.replica q 0)).resendPrepareTimeout then
          some (sendPrepare (S.serverEnv q 0)) else none) = some m := hact
        split_ifs at hact'
        cases Option.some.inj hact'
        exact sendPrepare_spec hp
    · cases k with
      | invoke requests => cases hact
      | timeout =>
        have hact' : (if (s.state (.replica q (i + 1))).resendPrepareTimeout then
          some (sendPrepare (S.serverEnv q (i + 1))) else none) = some m := hact
        split_ifs at hact'
        cases Option.some.inj hact'
        exact FollowerOk.sendPrepare hp

/-- The run lemma. -/
theorem invariant_of_run {past : List (Sys σ)} {s : Sys σ} (hr : Run (system S) S.DisjointTxnids past s) :
    ∃ g, (shardsInvariant S).Holds S.protocol.member g s := by
  obtain ⟨g, hg, -⟩ := Cluster.ClusterInvariant.of_run (holds_initial S)
    (fun g s e p m hs hC hm hmem hrun => handler_spec hs hC hm hmem hrun) hr
  exact ⟨g, hg⟩

/-- What is known of a leader, running or stopped. -/
theorem leaderSaid_of_holds {past : List (Sys σ)} {s : Sys σ} (hr : Run (system S) S.DisjointTxnids past s)
    {g : History S} (hs : (shardsInvariant S).Holds S.protocol.member g s) (q : Nat) :
    LeaderSaid g q (s.state (.replica q 0)) := by
  cases hmem : S.protocol.member (.replica q 0) with
  | true =>
    cases hst : s.stopped (.replica q 0) with
    | false => exact LeaderOk.toLeaderSaid (hs.running (.replica q 0) hmem hst)
    | true => exact hs.halted (.replica q 0) hmem hst
  | false =>
    have hinit : s.state (.replica q 0) = Server.initial (S.serverEnv q 0) :=
      Cluster.state_of_not_member hr hmem
    rw [hinit]
    refine ⟨fun x hx => (by cases hx), List.Pairwise.nil, fun h => (by cases h), fun h => ?_,
      AppState.ok_initial.said⟩
    rw [g.leader h] at hmem
    cases hmem

/-- What is known of a client, running or stopped. -/
theorem clientSaid_of_holds {past : List (Sys σ)} {s : Sys σ} (hr : Run (system S) S.DisjointTxnids past s)
    {g : History S} (hs : (shardsInvariant S).Holds S.protocol.member g s) (c : Nat) :
    ClientSaid g c (s.state (.client c)) := by
  cases hmem : S.protocol.member (.client c) with
  | true =>
    cases hst : s.stopped (.client c) with
    | false => exact ClientOk.toClientSaid (hs.running (.client c) hmem hst)
    | true => exact hs.halted (.client c) hmem hst
  | false =>
    have hinit : s.state (.client c) = Client.initial c := Cluster.state_of_not_member hr hmem
    rw [hinit]
    refine ⟨fun h => ?_, fun x hx => (by cases hx)⟩
    have hc : S.protocol.member (.client c) = true := decide_eq_true (g.client h)
    rw [hc] at hmem
    cases hmem

/-! ### Decisions -/

/-- The calls that the leader of shard `q` has made into its application. -/
def leaderCalls (s : Sys σ) (q : Nat) : List Call := (Server.app (s.state (.replica q 0))).upcalls

/-- A client has been called with this transaction, which has something for shard `q`. -/
def Participates (s : Sys σ) (t q : Nat) : Prop :=
  ∃ c requests, (t, requests) ∈ Client.invocations (s.state (.client c)) ∧ q ∈ requests.keys

variable {g : History S} {q : Nat} {s : Server σ}

/-- A call is what a client has asked for. -/
theorem LeaderSaid.ask_of_call (h : LeaderSaid g q s) {i : Nat} {u : Call}
    (hu : s.app.upcalls[i]? = some u) : ∃ x a, s.ops[i]? = some x ∧
      g.ask x.2.clientid x.2.clientreqid = some a ∧ x.1 = a.data ∧ q ∈ a.shards ∧
      u.arg = a.data.arg ∧ g.result q x.2.clientid x.2.clientreqid = some (replyType a.data u.ret) := by
  obtain ⟨x, hx, -, harg, hres⟩ := h.calls hu
  obtain ⟨a, txn, ha, htxn, hd, -⟩ := h.asked x (List.mem_of_getElem? hx)
  exact ⟨x, a, hx, ha, hd, mem_shards htxn, hd ▸ harg, hd ▸ hres⟩

/-- The type of a call says what was asked for. -/
theorem type_of_arg {a : Ask} {t : Nat} (hu : a.type ≠ .unknown) :
    (a.data.arg = ⟨t, .commit⟩ → a.txnid = t ∧ a.type = .commit) ∧
    (a.data.arg = ⟨t, .abort⟩ → a.txnid = t ∧ a.type = .abort) ∧
    (a.data.arg = ⟨t, .prepare⟩ → a.txnid = t ∧ a.type = .prepare) := by
  obtain ⟨txnid, type, texts⟩ := a
  cases type <;> simp_all [Ask.data, TxnData.arg]

/-- A client asks for one decision of each transaction. -/
theorem History.one_decision (g : History S) {c k c' k' : Nat} {a b : Ask} (ha : g.ask c k = some a)
    (hb : g.ask c' k' = some b) (hid : a.txnid = b.txnid) (hfa : a.type ≠ .prepare)
    (hfb : b.type ≠ .prepare) : a = b := by
  obtain rfl := g.disjoint ha hb hid
  rcases Nat.lt_trichotomy k k' with hlt | rfl | hgt
  · exact absurd ((g.txnid_le ha hb hlt).2 hid).1 hfa
  · exact Option.some.inj (ha.symm.trans hb)
  · exact absurd ((g.txnid_le hb ha hgt).2 hid.symm).1 hfb

/-- All that is asked for about a transaction is for the same shards. -/
theorem History.texts_eq (g : History S) {c k c' k' : Nat} {a b : Ask} (ha : g.ask c k = some a)
    (hb : g.ask c' k' = some b) (hid : a.txnid = b.txnid) : a.texts = b.texts := by
  obtain rfl := g.disjoint ha hb hid
  rcases Nat.lt_trichotomy k k' with hlt | rfl | hgt
  · exact (((g.txnid_le ha hb hlt).2 hid).2).symm
  · rw [Option.some.inj (ha.symm.trans hb)]
  · exact ((g.txnid_le hb ha hgt).2 hid.symm).2

/-- The PREPARE before a COMMIT is the last that a leader has executed, and was not blocked. -/
theorem LeaderSaid.lastPrepare_of_commit (h : LeaderSaid g q s) {c k : Nat} {a b : Ask}
    (hb : g.ask c (k + 1) = some b) (ha : g.ask c k = some a) (hprep : a.type = .prepare)
    (hcommit : b.type = .commit) (hid : a.txnid = b.txnid) (hok : g.result q c k = some .ok) :
    ∃ p, lastPrepare s.app.upcalls b.txnid = some p ∧ p.ret.blocked = false ∧ p.ret.commit = true := by
  obtain ⟨i, x, hi, hx, rfl, rfl⟩ := h.results hok
  obtain ⟨y, a', hy, ha', hd, -, harg, hres⟩ := h.ask_of_call (List.getElem?_eq_getElem hi)
  obtain rfl : x = y := Option.some.inj (hx.symm.trans hy)
  obtain rfl : a = a' := Option.some.inj (ha.symm.trans ha')
  refine ⟨_, lastPrepare_eq_some (List.getElem?_eq_getElem hi) ?_ fun j v hij hv hv' => ?_, ?_⟩
  · rw [harg, ← hid]
    simp [Ask.data, TxnData.arg, hprep]
  · -- a later PREPARE of the transaction would come after its COMMIT
    obtain ⟨z, a'', hz, ha'', -, -, harg'', -⟩ := h.ask_of_call hv
    obtain ⟨hid', hprep'⟩ := (type_of_arg (g.type_ne_unknown ha'')).2.2 (harg'' ▸ hv')
    have hc : x.2.clientid = z.2.clientid := g.disjoint hb ha'' hid'.symm
    have hlt := h.lt_of_lt hx hz hc hij
    rw [← hc] at ha''
    rcases Nat.lt_or_ge (x.2.clientreqid + 1) z.2.clientreqid with hlt' | hge
    · have := ((g.txnid_le hb ha'' hlt').2 hid'.symm).1
      rw [hcommit] at this
      cases this
    · obtain heq : x.2.clientreqid + 1 = z.2.clientreqid := by omega
      rw [← heq, hb] at ha''
      rw [Option.some.inj ha'', hprep'] at hcommit
      cases hcommit
  · have hre : replyType a.data (s.app.upcalls.get ⟨i, hi⟩).ret = .ok :=
      Option.some.inj (hres.symm.trans hok)
    have hda : a.data.type = .prepare := hprep
    rw [replyType, hda] at hre
    simp only [reduceCtorEq, or_self, if_false] at hre
    split_ifs at hre with hbl hco
    exact ⟨by simpa using hbl, hco⟩

/-! ### Two-phase commit over the key value store -/

/-- Shards of the key value store. -/
def kvShards (config : Configuration) (clients : List Nat) (E : KVEnv)
    (store : Nat → Nat → String → Option String) : Shards KVTxnServer where
  config := config
  clients := clients
  app q i := kvTxnServer E (store q i)

/-- What the leaders have done with each transaction `t`. -/
structure Isolated (E : KVEnv) (store : Nat → Nat → String → Option String) (s : Sys KVTxnServer) :
    Prop where
  /-- None executes a COMMIT and another an ABORT. -/
  decision : ∀ {q q' t u u'}, u ∈ leaderCalls s q → u' ∈ leaderCalls s q' →
    u.arg = { txnid := t, type := .commit } → u'.arg ≠ { txnid := t, type := .abort }
  /-- Where one has executed a COMMIT, the last PREPARE of each was not blocked, and to commit. -/
  prepared : ∀ {q t u}, u ∈ leaderCalls s q → u.arg = { txnid := t, type := .commit } →
    Participates s t q ∧ ∀ q', Participates s t q' → ∃ p, lastPrepare (leaderCalls s q') t = some p ∧
      p.ret.blocked = false ∧ p.ret.commit = true
  /-- Whenever the last call is a PREPARE that was not blocked, all the locks it asks for are held. -/
  locked : ∀ {q calls t u}, calls <+: leaderCalls s q → lastCall calls t = some u →
    u.arg.type = .prepare → u.ret.blocked = false → ∀ w, ∀ key ∈ E.keys u.txn w,
      ((kvTxnServer E (store q 0)).after calls).lockServer.Holds w key t
  /-- The store of a leader is what its calls have made of it. -/
  app : ∀ q, (Server.app (s.state (.replica q 0))).app = (kvTxnServer E (store q 0)).after (leaderCalls s q)

/-- In every run of clients with transaction ids of their own, the shards of the key value store commit a
    transaction everywhere or nowhere, and keep it isolated until then. -/
theorem two_phase_commit (config : Configuration) (clients : List Nat) {E : KVEnv}
    (hE : E.retryLock = true) (store : Nat → Nat → String → Option String) {past : List (Sys KVTxnServer)}
    {s : Sys KVTxnServer} (hr : Run (system (kvShards config clients E store))
      (kvShards config clients E store).DisjointTxnids past s) : Isolated E store s := by
  obtain ⟨g, hs⟩ := invariant_of_run hr
  have hleader : ∀ q, LeaderSaid g q (s.state (.replica q 0)) := leaderSaid_of_holds hr hs
  have hclient : ∀ c, ClientSaid g c (s.state (.client c)) := clientSaid_of_holds hr hs
  have hcall : ∀ {q u}, u ∈ leaderCalls s q → ∃ c k a, g.ask c k = some a ∧ q ∈ a.shards ∧
      u.arg = a.data.arg := by
    intro q u hu
    obtain ⟨i, hi⟩ := List.mem_iff_getElem?.mp hu
    obtain ⟨x, a, _, ha, _, hq, harg, _⟩ := (hleader q).ask_of_call hi
    exact ⟨_, _, a, ha, hq, harg⟩
  refine ⟨fun {q q' t u u'} hu hu' hc ha => ?_, fun {q t u} hu hc => ?_, fun {q calls t u} hp hl => ?_,
    fun q => ?_⟩
  · obtain ⟨c, k, a, hask, _, harg⟩ := hcall hu
    obtain ⟨c', k', a', hask', _, harg'⟩ := hcall hu'
    obtain ⟨hid, htype⟩ := (type_of_arg (g.type_ne_unknown hask)).1 (harg ▸ hc)
    obtain ⟨hid', htype'⟩ := (type_of_arg (g.type_ne_unknown hask')).2.1 (harg' ▸ ha)
    have heq := g.one_decision hask hask' (hid.trans hid'.symm) (by simp [htype]) (by simp [htype'])
    rw [heq, htype'] at htype
    cases htype
  · obtain ⟨c, k, b, hask, hq, harg⟩ := hcall hu
    obtain ⟨rfl, htype⟩ := (type_of_arg (g.type_ne_unknown hask)).1 (harg ▸ hc)
    refine ⟨⟨c, b.texts, (hclient c).invoked hask, List.mem_toFinset.mpr hq⟩, ?_⟩
    rintro q' ⟨c', requests, hinv, hq'⟩
    obtain ⟨k', b', hask', hid', rfl⟩ := (hclient c').asked _ hinv
    have htexts := g.texts_eq hask' hask hid'
    obtain ⟨k, a, rfl, ha, hprep, hid, _, hok⟩ := g.prepared_of_commit hask htype
    refine (hleader q').lastPrepare_of_commit hask ha hprep htype hid (hok q' ?_)
    rw [Ask.shards, ← htexts]
    exact List.mem_toFinset.mp hq'
  · exact (locksSaid_of_made ((hleader q).app.made.of_prefix hp)).prepared hl
  · rcases (hleader q).app.app with happ | ⟨txn, arg, hno⟩
    · exact happ
    · have hok := (locksSaid_of_made (hleader q).app.made).ok
      obtain ⟨x, s', o, hx, _⟩ := invokeTransaction_returns hE hok txn arg
      have hno' : (invokeTransaction E txn arg ((kvTxnServer E (store q 0)).after
        (Server.app (s.state (.replica q 0))).upcalls)).1 = none := hno
      rw [hx] at hno'
      cases hno'

/-- Two shards of three replicas, which start empty, and a client. -/
def twoShards : Shards KVTxnServer :=
  kvShards { n := 3, f := 1, g := 2 } [0] (.plain true) fun _ _ _ => none

/-- The text of a transaction that puts one key. -/
def putText : String := (KVEnv.plain true).message.serialize { gets := [], puts := [("k", "v")] }

/-- The client has both shards put a key: both prepare, and the first commits. -/
def commitOne : List Event :=
  [.act (.client 0) (.invoke ((StdMap.empty.insert 0 putText).insert 1 putText)), .deliver 0, .deliver 6,
    .deliver 8, .deliver 3, .deliver 12, .deliver 14, .deliver 11, .deliver 17, .deliver 18, .deliver 24,
    .deliver 26]

theorem two_phase_commit_one : ∃ s : Sys KVTxnServer,
    (∃ u ∈ leaderCalls s 0, u.arg = { txnid := 1, type := .commit }) ∧
    Isolated (.plain true) (fun _ _ _ => none) s := by
  obtain ⟨past, s, hr, hs⟩ := Run.exists_of_exec (system twoShards) twoShards.DisjointTxnids commitOne
    (fun s => (leaderCalls s 0).any fun u => u.arg = { txnid := 1, type := .commit }) (by decide +kernel)
  refine ⟨s, ?_, two_phase_commit { n := 3, f := 1, g := 2 } [0] rfl (fun _ _ _ => none) hr⟩
  obtain ⟨u, hu, harg⟩ := List.any_eq_true.mp hs
  exact ⟨u, hu, by simpa using harg⟩

end Dsnet.Spanner
