import Dsnet.FastPaxos.Commit

/-! What the leader does: each of its handlers keeps `GoodLeader`. It commits on a quorum of
    acknowledgements. One of the slow path vouches for the whole log up to its opnum; one of the fast
    path vouches for its own slot only, and what is committed with it may include others. `InOrder`
    says that it does not. -/

namespace Dsnet.FastPaxos
open Handler Net.GhostInvariant

/-- The replicas that have acknowledged `req` at slot `k` on the fast path, also by these messages. -/
def fastOKs (s : Replica) (k : Nat) (req : Request) (ms : List PrepareOKMessage) : Finset Nat :=
  (s.fastPrepareOKQuorum.messages (s.view, k)).keys ∪
    ((ms.filter fun m => m.slowpath = 0 ∧ m.view = s.view ∧ m.opnum = k ∧ matchesLog req m).map
      (·.replicaidx)).toFinset

/-- If these acknowledgements complete a fast quorum for slot `k`, every slot before it is committed. -/
def InOrder (s : Replica) (k : Nat) (req : Request) (ms : List PrepareOKMessage) : Prop :=
  s.fastPrepareOKQuorum.numRequired ≤ (fastOKs s k req ms).card → k ≤ s.lastCommitted + 1

instance (s : Replica) (k : Nat) (req : Request) (ms : List PrepareOKMessage) :
    Decidable (InOrder s k req ms) := inferInstanceAs (Decidable (_ → _))

variable {E : Env} {safe : Prop} {g : Snapshot} {s : Replica}

/-! ### Quorums -/

theorem agreesAt_leader {i : Nat} (hi : i < (g.logs 0).length) : g.AgreesAt 0 i :=
  ⟨_, List.getElem?_eq_getElem hi, List.getElem?_eq_getElem hi⟩

/-- The leader and those that have acknowledged are a quorum. -/
theorem quorumAt_of_acks {c : Configuration} {β : Type} {ms : StdMap Nat β} {i : Nat} (hn : 0 < c.n)
    (hi : i < (g.logs 0).length) (hsize : c.quorumSize - 1 ≤ ms.size)
    (h : ∀ x ∈ ms.toList, x.1 ≠ 0 ∧ x.1 < c.n ∧ g.AgreesAt x.1 i) : g.QuorumAt c i := by
  have hmem {r : Nat} (hr : r ∈ ms.keys) : r ≠ 0 ∧ r < c.n ∧ g.AgreesAt r i := by
    obtain ⟨b, hb⟩ := StdMap.mem_keys.mp hr
    exact h _ hb
  refine ⟨insert 0 ms.keys, ?_, fun r hr => ?_⟩
  · rw [Finset.card_insert_of_notMem (fun h0 => (hmem h0).1 rfl), StdMap.card_keys]
    unfold Configuration.quorumSize at *
    omega
  · rcases Finset.mem_insert.mp hr with rfl | hr
    · exact ⟨hn, agreesAt_leader hi⟩
    · exact (hmem hr).2

theorem fastQuorum_le (c : Configuration) : c.quorumSize - 1 ≤ c.fastQuorumSize - 1 := by
  unfold Configuration.quorumSize Configuration.fastQuorumSize
  omega

/-- A request that has the same numbers as another is the same. -/
theorem Snapshot.Genuine.eq {req req' : Request} (h : g.Genuine req) (h' : g.Genuine req')
    (hid : req.clientid = req'.clientid) (hreqid : req.clientreqid = req'.clientreqid) :
    req = req' := by
  obtain ⟨op, cid, rid, addr⟩ := req
  obtain ⟨op', cid', rid', addr'⟩ := req'
  obtain rfl : cid = cid' := hid
  obtain rfl : rid = rid' := hreqid
  obtain rfl : op = op' := h.op.trans h'.op.symm
  obtain rfl : addr = addr' := h.clientaddr.trans h'.clientaddr.symm
  rfl

/-! ### The parts of a step -/

/-- What an acknowledgement may change. -/
structure Acked (m : PrepareOKMessage) (s t : Replica) : Prop where
  view : t.view = s.view
  slow : t.lastSlowPath = s.lastSlowPath
  committed : s.lastCommitted ≤ t.lastCommitted
  contents : t.log.contents = s.log.contents
  required : t.fastPrepareOKQuorum.numRequired = s.fastPrepareOKQuorum.numRequired
  fast : ∀ k, ∀ x ∈ (t.fastPrepareOKQuorum.messages (0, k)).toList,
    x ∈ (s.fastPrepareOKQuorum.messages (0, k)).toList ∨
      (x.1 = m.replicaidx ∧ m.slowpath = 0 ∧ m.opnum = k ∧
        ∃ y, s.log.contents[k - 1]? = some y ∧ matchesLog y.2 m)

theorem Acked.of_commits {m : PrepareOKMessage} {t u : Replica} (h : Acked m s t)
    (hc : Commits t u) (hs : u.lastSlowPath = t.lastSlowPath) : Acked m s u where
  view := hc.view.trans h.view
  slow := hs.trans h.slow
  committed := h.committed.trans hc.committed
  contents := hc.contents.trans h.contents
  required := by rw [hc.fastQuorum]; exact h.required
  fast := by rw [hc.fastQuorum]; exact h.fast

/-- Nothing of what the frame speaks of has changed. -/
theorem Acked.same {m : PrepareOKMessage} {t : Replica} (hv : t.view = s.view)
    (hs : t.lastSlowPath = s.lastSlowPath) (hc : t.lastCommitted = s.lastCommitted)
    (hl : t.log = s.log) (hq : t.fastPrepareOKQuorum = s.fastPrepareOKQuorum) : Acked m s t :=
  ⟨hv, hs, hc.ge, by rw [hl], by rw [hq], fun k x hx => Or.inl (hq ▸ hx)⟩

/-- What is stored with a new acknowledgement is among `fastOKs`. -/
theorem size_add_le {m : PrepareOKMessage} {req : Request} (hv : m.view = s.view)
    (hp : m.slowpath = 0) (hmatch : matchesLog req m) :
    ((s.fastPrepareOKQuorum.add (m.view, m.opnum) m.replicaidx m).messages
      (m.view, m.opnum)).size ≤ (fastOKs s m.opnum req [m]).card := by
  rw [← StdMap.card_keys]
  refine Finset.card_le_card fun x hx => ?_
  obtain ⟨b, hb⟩ := StdMap.mem_keys.mp hx
  rcases QuorumSet.mem_messages_add hb with ⟨_, hx⟩ | hb
  · obtain rfl : x = m.replicaidx := congrArg Prod.fst hx
    exact Finset.mem_union_right _ (by simp [hp, hv, hmatch])
  · rw [hv] at hb
    exact Finset.mem_union_left _ (StdMap.mem_keys.mpr ⟨b, hb⟩)

/-- A fast quorum that is in order stays so when more is committed. -/
theorem InOrder.mono {t : Replica} {k : Nat} {req : Request} {ms ms' : List PrepareOKMessage}
    (h : InOrder s k req ms) (hsub : fastOKs t k req ms' ⊆ fastOKs s k req ms)
    (hreq : t.fastPrepareOKQuorum.numRequired = s.fastPrepareOKQuorum.numRequired)
    (hc : s.lastCommitted ≤ t.lastCommitted) : InOrder t k req ms' := by
  intro hq
  rw [hreq] at hq
  exact (h (hq.trans (Finset.card_le_card hsub))).trans (by omega)

/-- A new request has a later number than any logged one of its client. -/
theorem fresh_above {c : Configuration} {req : Request} (h : GoodLeader c safe g s)
    (hfresh : checkDuplicate s req = .fresh) :
    ∀ x ∈ g.logs 0, x.2.clientid = req.clientid → x.2.clientreqid < req.clientreqid := by
  intro x hx hid
  obtain ⟨hle, hsome⟩ := h.table x hx
  rw [hid] at hle hsome
  obtain ⟨e, he⟩ := Option.ne_none_iff_exists'.mp hsome
  simp only [Replica.clientEntry, he, Option.getD_some] at hle
  simp only [checkDuplicate, he] at hfresh
  split_ifs at hfresh with h1 h2
  omega

section Leader
variable (hr : E.replicaIdx = 0)
include hr

theorem amLeader_of (h : s.view = 0) : amLeader E s := by
  unfold amLeader Configuration.getLeaderIndex
  rw [h, Nat.zero_mod, hr]

/-- The leader commits what a quorum has, when that matters. -/
theorem commitUpTo_leader {upto : Nat} (h : GoodLeader E.config safe g s)
    (hk : upto ≤ s.lastSlowPath)
    (hq : safe → ∀ i < upto, s.lastCommitted ≤ i → g.QuorumAt E.config i) :
    Meets E safe g (commitUpTo E upto) s fun _ g' t => GoodLeader E.config safe g' t ∧
      Commits s t ∧ g'.logs = g.logs ∧ t.lastCommitted = max s.lastCommitted upto ∧
      t.lastSlowPath = s.lastSlowPath := by
  have hnode : Node g E.replicaIdx s.lastSlowPath s := hr.symm ▸ h.toNode
  refine (commitUpTo_spec hnode hk).mono ?_
  rintro _ g' t hg ⟨hn, hc, hl, hmax, hslow⟩
  have hs : t.lastSlowPath = s.lastSlowPath := by
    rw [hslow]
    exact max_eq_left hn.committed_le
  refine ⟨?_, hc, hl, hmax, hs⟩
  exact
    { toNode := hr ▸ hs.symm ▸ hn
      full := by
        rw [hs, h.full, ← Log.length_contents, ← Log.length_contents, hc.contents]
      good := hl ▸ h.good
      genuine := by rw [hl]; exact fun x hx => Genuine.mono hg (h.genuine x hx)
      table := by
        rw [hl]
        exact fun x hx => ⟨(h.table x hx).1.trans (hc.table _).1, (hc.table _).2 (h.table x hx).2⟩
      unsent := by rw [hc.lastPrepare, hs]; exact h.unsent
      lastPrepare := by
        rw [hc.lastPrepare]
        exact fun p hp => ⟨(h.lastPrepare p hp).1, LogsAt.mono hg (h.lastPrepare p hp).2⟩
      pendingOKs := by
        rw [hc.pendingPrepareOKs, hs]
        exact fun x hx => ⟨GoodPrepareOK.mono hg (h.pendingOKs x hx).1, (h.pendingOKs x hx).2⟩
      slowRequired := by rw [hc.slowQuorum]; exact h.slowRequired
      fastRequired := by rw [hc.fastQuorum]; exact h.fastRequired
      slowAcks := by
        rw [hc.slowQuorum]
        intro k x hx
        obtain ⟨h0, hn, ha⟩ := h.slowAcks k x hx
        exact ⟨h0, hn, fun i hi => AgreesAt.mono hg (ha i hi)⟩
      fastAcks := by
        rw [hc.fastQuorum, hs]
        intro k x hx
        obtain ⟨h0, hn, hk, hk', ha⟩ := h.fastAcks k x hx
        exact ⟨h0, hn, hk, hk', AgreesAt.mono hg ha⟩
      quorum := by
        intro hsafe i hi
        refine QuorumAt.mono hg ?_
        by_cases hold : i < s.lastCommitted
        · exact h.quorum hsafe i hold
        · exact hq hsafe i (by omega) (by omega) }

/-- What the leader sends to all, no message to itself. -/
theorem packets_toAll {m : ToReplicaMessage} {p : Net.Packet ToReplicaMessage}
    (hp : p ∈ Net.packets (ν := ToClientMessage) E.config.n E.replicaIdx (.toAll m)) :
    p.dst ≠ 0 ∧ p.msg = m := by
  obtain ⟨i, hi, rfl⟩ := List.mem_map.mp hp
  have hne := (List.mem_filter.mp hi).2
  rw [hr] at hne
  exact ⟨by simpa using hne, rfl⟩

theorem resendPrepare_spec (h : GoodLeader E.config safe g s) :
    Meets E safe g (resendPrepare E) s fun _ g' t => g' = g ∧ GoodLeader E.config safe g t ∧
      ∃ a, t = { s with active := a } := by
  unfold resendPrepare
  simp only [spec_get_bind, spec_assert_bind, spec_ite, spec_pure, spec_modify_bind, spec_emit]
  refine ⟨fun _ => ⟨fun _ => Ends.same ⟨rfl, h, _, rfl⟩, fun hne => ?_⟩,
    fun hn => absurd (amLeader_of hr h.view) hn⟩
  refine Ends.sends ⟨rfl, { h with }, _, rfl⟩ fun p hp => ?_
  obtain ⟨hdst, hmsg⟩ := packets_toAll hr hp
  cases hlast : s.lastPrepare with
  | none =>
    have := h.unsent hlast
    have := h.committed_le
    omega
  | some m =>
    simp only [hlast] at hmsg
    show GoodPacket _ _ _
    unfold GoodPacket
    rw [hmsg]
    exact ⟨hdst, h.lastPrepare m hlast⟩

theorem quorumReached_spec {msg : PrepareOKMessage} {e : LogEntry} {size need : Nat}
    (h : GoodLeader E.config safe g s) (hk : msg.opnum ≤ s.lastSlowPath)
    (hc : s.lastCommitted < msg.opnum) (he : s.log.find msg.opnum = some e)
    (hq : safe → ∀ i < msg.opnum, s.lastCommitted ≤ i → g.QuorumAt E.config i) :
    Meets E safe g (quorumReached E msg e.request size need) s fun _ g' t =>
      GoodLeader E.config safe g' t ∧ Commits s t ∧ t.lastSlowPath = s.lastSlowPath := by
  unfold quorumReached
  refine Spec.bind (commitUpTo_leader hr h hk hq) ?_
  rintro _ g' t hg ⟨ht, hcommits, hl, hmax, hslow⟩
  simp only [spec_ite, spec_pure, spec_get_bind, spec_emit]
  refine ⟨fun _ => Ends.same ⟨ht, hcommits, hslow⟩, fun _ => Ends.sends ⟨ht, hcommits, hslow⟩ ?_⟩
  intro p hp
  obtain ⟨hdst, hmsg⟩ := packets_toAll hr hp
  show GoodPacket _ _ _
  unfold GoodPacket
  rw [hmsg]
  have hlast : t.lastCommitted = msg.opnum := by omega
  obtain ⟨h1, hat⟩ := Log.getElem?_contents_of_find he
  have hview : e.view = 0 := h.good.view _ (h.log ▸ List.mem_of_getElem? hat)
  rw [h.log, LogEntry.content, hview] at hat
  exact ⟨hdst, ht.view, by rw [hlast]; exact h1, by rw [hlast, hl]; exact hat⟩

theorem recordSlow_spec {m : PrepareOKMessage} {e : LogEntry} (hn : 0 < E.config.n)
    (h : GoodLeader E.config safe g s) (hm : GoodPrepareOK E.config g m) (hp : m.slowpath ≠ 0)
    (hc : s.lastCommitted < m.opnum) (hk : m.opnum ≤ s.lastSlowPath)
    (he : s.log.find m.opnum = some e) :
    Meets E safe g (recordPrepareOK E m e.request) s fun _ g' t =>
      GoodLeader E.config safe g' t ∧ Acked m s t := by
  unfold recordPrepareOK
  simp only [spec_get_bind]
  rw [if_pos hp]
  simp only [spec_modify_bind, spec_whenSome]
  set q := s.slowPrepareOKQuorum.add (m.view, m.opnum) m.replicaidx m with hqdef
  have hlen := h.toNode.length_le.1
  have hgood : GoodLeader E.config safe g { s with slowPrepareOKQuorum := q } := by
    refine { h with slowRequired := h.slowRequired, slowAcks := ?_ }
    intro k x hx
    rcases QuorumSet.mem_messages_add hx with ⟨hkey, rfl⟩ | hx
    · obtain rfl : k = m.opnum := congrArg Prod.snd hkey
      exact ⟨hm.other, hm.sender, hm.slow hp⟩
    · exact h.slowAcks k x hx
  have hacked : Acked m s { s with slowPrepareOKQuorum := q } := .same rfl rfl rfl rfl rfl
  refine ⟨fun ms hms => ?_, fun _ => Ends.same ⟨hgood, hacked⟩⟩
  obtain ⟨rfl, hsize⟩ := QuorumSet.checkForQuorum_eq_some.mp hms
  refine (quorumReached_spec hr hgood hk hc he ?_).mono ?_
  · intro _ i hi _
    refine quorumAt_of_acks hn (by omega) (h.slowRequired ▸ hsize) fun x hx => ?_
    rw [hm.view] at hx
    obtain ⟨h0, hlt, ha⟩ := hgood.slowAcks m.opnum x hx
    exact ⟨h0, hlt, ha i hi⟩
  · rintro _ g' t _ ⟨ht, hcommits, hs⟩
    exact ⟨ht, hacked.of_commits hcommits hs⟩

theorem recordFast_spec {m : PrepareOKMessage} {e : LogEntry} (hn : 0 < E.config.n)
    (h : GoodLeader E.config safe g s) (hm : GoodPrepareOK E.config g m) (hp : m.slowpath = 0)
    (hmatch : matchesLog e.request m) (hc : s.lastCommitted < m.opnum)
    (hk : m.opnum ≤ s.lastSlowPath) (he : s.log.find m.opnum = some e)
    (horder : safe → InOrder s m.opnum e.request [m]) :
    Meets E safe g (recordPrepareOK E m e.request) s fun _ g' t =>
      GoodLeader E.config safe g' t ∧ Acked m s t := by
  unfold recordPrepareOK
  simp only [spec_get_bind]
  rw [if_neg (not_not.mpr hp)]
  simp only [spec_modify_bind, spec_whenSome]
  set q := s.fastPrepareOKQuorum.add (m.view, m.opnum) m.replicaidx m with hqdef
  have hlen := h.toNode.length_le.1
  obtain ⟨h1, hat⟩ := Log.getElem?_contents_of_find he
  have hat0 : (g.logs 0)[m.opnum - 1]? = some e.content := h.log ▸ hat
  have hagree : g.AgreesAt m.replicaidx (m.opnum - 1) := by
    obtain ⟨hgen, x, hx, hxe⟩ := hm.fast hp
    refine ⟨x, hx, hxe.elim (fun hx => ?_) id⟩
    have hsame : e.request = m.req :=
      (h.genuine _ (List.mem_of_getElem? hat0)).eq hgen hmatch.1 hmatch.2
    have hview : e.view = 0 := h.good.view _ (List.mem_of_getElem? hat0)
    rw [hat0, hx, LogEntry.content, hview, hsame]
  have hgood : GoodLeader E.config safe g { s with fastPrepareOKQuorum := q } := by
    refine { h with fastRequired := h.fastRequired, fastAcks := ?_ }
    intro k x hx
    rcases QuorumSet.mem_messages_add hx with ⟨hkey, rfl⟩ | hx
    · obtain rfl : k = m.opnum := congrArg Prod.snd hkey
      exact ⟨hm.other, hm.sender, hm.opnum, hk, hagree⟩
    · exact h.fastAcks k x hx
  have hacked : Acked m s { s with fastPrepareOKQuorum := q } := by
    refine ⟨rfl, rfl, Nat.le_refl _, rfl, rfl, fun k x hx => ?_⟩
    rcases QuorumSet.mem_messages_add hx with ⟨hkey, rfl⟩ | hx
    · obtain rfl : k = m.opnum := congrArg Prod.snd hkey
      exact Or.inr ⟨rfl, hp, rfl, e.content, hat, hmatch⟩
    · exact Or.inl hx
  refine ⟨fun ms hms => ?_, fun _ => Ends.same ⟨hgood, hacked⟩⟩
  obtain ⟨rfl, hsize⟩ := QuorumSet.checkForQuorum_eq_some.mp hms
  refine (quorumReached_spec hr hgood hk hc he ?_).mono ?_
  · intro hsafe i hi hci
    have hnext : m.opnum ≤ s.lastCommitted + 1 :=
      horder hsafe (le_trans hsize (size_add_le (hm.view.trans h.view.symm) hp hmatch))
    obtain rfl : i = m.opnum - 1 := by
      have : s.lastCommitted ≤ i := hci
      omega
    refine quorumAt_of_acks hn (by omega) ((fastQuorum_le _).trans (h.fastRequired ▸ hsize)) ?_
    intro x hx
    rw [hm.view] at hx
    obtain ⟨h0, hlt, _, _, ha⟩ := hgood.fastAcks m.opnum x hx
    exact ⟨h0, hlt, ha⟩
  · rintro _ g' t _ ⟨ht, hcommits, hs⟩
    exact ⟨ht, hacked.of_commits hcommits hs⟩

theorem handlePrepareOK_leader {remote : Addr} {m : PrepareOKMessage} (hn : 0 < E.config.n)
    (h : GoodLeader E.config safe g s) (hm : GoodPrepareOK E.config g m)
    (horder : safe → m.slowpath = 0 → m.opnum ≤ s.lastSlowPath → ∀ y,
      s.log.contents[m.opnum - 1]? = some y → matchesLog y.2 m → InOrder s m.opnum y.2 [m]) :
    Meets E safe g (handlePrepareOK E remote m) s fun _ g' t =>
      GoodLeader E.config safe g' t ∧ Acked m s t := by
  unfold handlePrepareOK
  simp only [spec_get_bind, spec_ite, spec_pure, spec_ofOption_bind, spec_assert_bind]
  refine ⟨fun hs => absurd h.status hs, fun _ => ⟨fun hlt => ?_, fun _ => ⟨fun hgt => ?_,
    fun _ => ⟨fun hlead => absurd (amLeader_of hr h.view) hlead, fun _ => ⟨fun _ => ?_,
    fun hc => ⟨fun hpend => ?_, fun hk => ⟨fun e he => ⟨fun _ => ⟨fun hconf => ?_, fun hconf => ?_⟩,
    fun _ => ?_⟩, fun _ => ?_⟩⟩⟩⟩⟩⟩⟩
  · exact Ends.same ⟨h, .same rfl rfl rfl rfl rfl⟩
  · rw [hm.view] at hgt
    exact absurd hgt (Nat.not_lt_zero _)
  · exact Ends.same ⟨h, .same rfl rfl rfl rfl rfl⟩
  · refine spec_modify.mpr (Ends.same ⟨{ h with pendingOKs := ?_ }, .same rfl rfl rfl rfl rfl⟩)
    intro x hx
    rcases List.mem_append.mp hx with hx | hx
    · exact h.pendingOKs x hx
    · obtain rfl := List.mem_singleton.mp hx
      exact ⟨hm, hpend⟩
  · refine (resendPrepare_spec hr h).mono ?_
    rintro _ g' t _ ⟨rfl, ht, a, rfl⟩
    exact ⟨ht, .same rfl rfl rfl rfl rfl⟩
  · have hat := (Log.getElem?_contents_of_find he).2
    by_cases hp : m.slowpath = 0
    · have hmatch : matchesLog e.request m := by
        by_contra hne
        exact hconf ⟨hp, hne⟩
      have hin : safe → InOrder s m.opnum e.request [m] := fun hsafe =>
        horder hsafe hp (by omega) e.content hat hmatch
      exact recordFast_spec hr hn h hm hp hmatch (by omega) (by omega) he hin
    · exact recordSlow_spec hr hn h hm hp (by omega) (by omega) he
  · exact Ends.same (h.halted hr rfl rfl rfl)
  · exact Ends.same (h.halted hr rfl rfl rfl)

/-! ### The handlers -/

/-- Processing the deferred acknowledgements: they are for the slot `k` of the new request, or for a
    later one, and what is counted for `k` was deferred. -/
structure Processing (c : Configuration) (safe : Prop) (s : Replica) (k : Nat) (req : Request)
    (left : List (Addr × PrepareOKMessage)) (g' : Snapshot) (t : Replica) : Prop where
  leader : GoodLeader c safe g' t
  slow : t.lastSlowPath = k
  committed : s.lastCommitted ≤ t.lastCommitted
  required : t.fastPrepareOKQuorum.numRequired = s.fastPrepareOKQuorum.numRequired
  logged : t.log.contents[k - 1]? = some (0, req)
  left : ∀ x ∈ left, GoodPrepareOK c g' x.2 ∧ k ≤ x.2.opnum ∧ x ∈ s.pendingPrepareOKs
  counted : ∀ x ∈ (t.fastPrepareOKQuorum.messages (0, k)).toList,
    x.1 ∈ fastOKs s k req (s.pendingPrepareOKs.map Prod.snd)

/-- One of them. -/
theorem processing_step {k : Nat} {req : Request} {x : Addr × PrepareOKMessage}
    {left : List (Addr × PrepareOKMessage)} {t : Replica} (hn : 0 < E.config.n) (hv : s.view = 0)
    (horder : safe → InOrder s k req (s.pendingPrepareOKs.map Prod.snd))
    (h : Processing E.config safe s k req (x :: left) g t) :
    Meets E safe g (handlePrepareOK E x.1 x.2) t
      fun _ g' t' => Processing E.config safe s k req left g' t' := by
  obtain ⟨⟨hgood, hk, hmem⟩, hleft⟩ := List.forall_mem_cons.mp h.left
  have hnew {y : Nat × Request} (hp : x.2.slowpath = 0) (hopnum : x.2.opnum = k)
      (hy : t.log.contents[k - 1]? = some y) (hmatch : matchesLog y.2 x.2) :
      x.2.replicaidx ∈ fastOKs s k req (s.pendingPrepareOKs.map Prod.snd) := by
    obtain rfl : (0, req) = y := Option.some.inj (h.logged.symm.trans hy)
    refine Finset.mem_union_right _ (List.mem_toFinset.mpr (List.mem_map.mpr ⟨x.2, ?_, rfl⟩))
    refine List.mem_filter.mpr ⟨List.mem_map_of_mem hmem, decide_eq_true ?_⟩
    exact ⟨hp, hgood.view.trans hv.symm, hopnum, hmatch⟩
  refine (handlePrepareOK_leader hr hn h.leader hgood ?_).mono ?_
  · intro hsafe hp hle y hy hmatch
    obtain hopnum : x.2.opnum = k := by have := h.slow; omega
    rw [hopnum] at hy ⊢
    obtain rfl : (0, req) = y := Option.some.inj (h.logged.symm.trans hy)
    refine (horder hsafe).mono (fun r hr => ?_) h.required h.committed
    rcases Finset.mem_union.mp hr with hr | hr
    · obtain ⟨b, hb⟩ := StdMap.mem_keys.mp hr
      rw [h.leader.view] at hb
      exact h.counted _ hb
    · obtain ⟨m, hm, rfl⟩ := List.mem_map.mp (List.mem_toFinset.mp hr)
      obtain rfl : m = x.2 := List.mem_singleton.mp (List.mem_filter.mp hm).1
      exact hnew hp hopnum hy hmatch
  · rintro _ g' t' hg ⟨ht, ha⟩
    exact
      { leader := ht
        slow := ha.slow.trans h.slow
        committed := h.committed.trans ha.committed
        required := ha.required.trans h.required
        logged := ha.contents ▸ h.logged
        left := fun y hy => ⟨GoodPrepareOK.mono hg (hleft y hy).1, (hleft y hy).2⟩
        counted := by
          intro y hy
          rcases ha.fast k y hy with hy | ⟨hidx, hp, hopnum, z, hz, hmatch⟩
          · exact h.counted y hy
          · exact hidx ▸ hnew hp hopnum hz hmatch }

omit hr in
/-- The leader logs a new request. -/
theorem leader_logs {req : Request} {l : Log} {a : Timer → Bool} {p : PrepareMessage}
    (h : GoodLeader E.config safe g s)
    (hnew : ∀ x ∈ g.logs 0, x.2.clientid = req.clientid → x.2.clientreqid < req.clientreqid)
    (htable : req.clientreqid ≤ (s.clientEntry req.clientid).lastReqId ∧
      s.clientTable req.clientid ≠ none) (hgen : g.Genuine req)
    (hl : l.contents = s.log.contents ++ [(0, req)])
    (hp : p = { view := s.view, opnum := s.lastSlowPath + 1, req := req }) :
    Advances 0 g (g.write 0 l.contents) ∧
      GoodLeader E.config safe (g.write 0 l.contents) { s with
        lastSlowPath := s.lastSlowPath + 1, lastFastPath := s.lastSlowPath + 1, log := l
        lastPrepare := some p, active := a, pendingPrepareOKs := [] } := by
  have hl' : l.contents = g.logs 0 ++ [(0, req)] := by rw [hl, h.log]
  have hadv : Advances 0 g (g.write 0 l.contents) := .lead (hl' ▸ List.prefix_append ..)
  have hlen : l.entries.length = s.lastSlowPath + 1 := by
    rw [← Log.length_contents, hl, List.length_append, Log.length_contents, h.full]
    rfl
  have hlog0 : (g.logs 0).length = s.lastSlowPath := by
    rw [← h.log, Log.length_contents, h.full]
  refine ⟨hadv, ?_⟩
  exact
    { view := h.view, status := h.status, committed := h.committed, unsent := by simp
      slowRequired := h.slowRequired, fastRequired := h.fastRequired
      log := (g.logs_write_self 0 _).symm
      views := by
        rw [g.logs_write_self, hl']
        exact fun x hx => (List.mem_append.mp hx).elim (h.views x) (by simp +contextual)
      fast := hlen.symm
      agrees := fun i hi => agreesAt_leader (by
        rw [g.logs_write_self, Log.length_contents, hlen]
        exact hi)
      slow := Nat.le_refl _
      committed_le := h.committed_le.trans (Nat.le_succ _)
      executed := by
        rw [g.logs_write_self, take_opnumbered_mono (hl' ▸ List.prefix_append ..)
          (h.committed_le.trans hlog0.ge)]
        exact h.executed
      full := hlen.symm
      good := by
        rw [g.logs_write_self, hl']
        refine ⟨fun x hx => ?_, List.pairwise_append.mpr ⟨h.good.increasing, by simp, ?_⟩⟩
        · exact (List.mem_append.mp hx).elim (h.good.view x) (by simp +contextual)
        · intro x hx y hy hid
          obtain rfl := List.mem_singleton.mp hy
          exact hnew x hx hid
      genuine := by
        intro x hx
        rw [g.logs_write_self, hl'] at hx
        rcases List.mem_append.mp hx with hx | hx
        · exact Genuine.mono hadv (h.genuine x hx)
        · obtain rfl := List.mem_singleton.mp hx
          exact Genuine.mono hadv hgen
      table := by
        rw [g.logs_write_self, hl']
        intro x hx
        rcases List.mem_append.mp hx with hx | hx
        · exact h.table x hx
        · obtain rfl := List.mem_singleton.mp hx
          exact htable
      lastPrepare := by
        rintro q ⟨rfl⟩
        subst hp
        refine ⟨h.view, Nat.succ_pos _, ?_⟩
        rw [g.logs_write_self, hl', ← hlog0, Nat.add_sub_cancel, List.getElem?_concat_length]
      pendingOKs := by simp
      slowAcks := by
        intro k x hx
        obtain ⟨h0, hn, ha⟩ := h.slowAcks k x hx
        exact ⟨h0, hn, fun i hi => AgreesAt.mono hadv (ha i hi)⟩
      fastAcks := by
        intro k x hx
        obtain ⟨h0, hn, hk, hk', ha⟩ := h.fastAcks k x hx
        exact ⟨h0, hn, hk, hk'.trans (Nat.le_succ _), AgreesAt.mono hadv ha⟩
      quorum := fun hs i hi => QuorumAt.mono hadv (h.quorum hs i hi) }

theorem leadRequest_spec {req : Request} (hn : 0 < E.config.n) (h : GoodLeader E.config safe g s)
    (hnew : ∀ x ∈ g.logs 0, x.2.clientid = req.clientid → x.2.clientreqid < req.clientreqid)
    (htable : req.clientreqid ≤ (s.clientEntry req.clientid).lastReqId ∧
      s.clientTable req.clientid ≠ none) (hgen : g.Genuine req)
    (horder : safe → InOrder s (s.lastSlowPath + 1) req (s.pendingPrepareOKs.map Prod.snd)) :
    Meets E safe g (leadRequest E req) s fun _ g' t => GoodLeader E.config safe g' t := by
  unfold leadRequest
  simp only [spec_get_bind, spec_assert_bind, spec_modify_bind, spec_ofOption_bind]
  refine ⟨fun _ => ⟨fun log hlog => ?_, fun _ => Ends.same (h.halted hr rfl rfl rfl)⟩,
    fun _ => Ends.same (h.halted hr rfl rfl rfl)⟩
  have hl : log.contents = s.log.contents ++ [(0, req)] := by
    rw [Log.contents_append hlog, LogEntry.content, h.view]
  obtain ⟨hadv, hgood⟩ := leader_logs (l := log) h hnew htable hgen hl rfl
  have hadv' : Advances E.replicaIdx g (g.write 0 log.contents) := by
    rw [hr]
    exact hadv
  refine Spec.advance (I := invariant E.config safe) hadv' ?_
  refine (Spec.forEach (I := invariant E.config safe)
    (Processing E.config safe s (s.lastSlowPath + 1) req) ?_ ?_).mono fun _ _ _ _ ht => ht.leader
  · rintro ⟨remote, m⟩ left g' t ht
    exact processing_step hr hn h.view horder ht
  · exact
      { leader := hgood, slow := rfl, committed := Nat.le_refl _, required := rfl
        logged := by
          have : s.lastSlowPath = s.log.contents.length := by rw [Log.length_contents, h.full]
          simp [Replica.start, hl, this]
        left := fun x hx => ⟨GoodPrepareOK.mono hadv (h.pendingOKs x hx).1, (h.pendingOKs x hx).2, hx⟩
        counted := fun x hx => Finset.mem_union_left _ (StdMap.mem_keys.mpr ⟨x.2, h.view.symm ▸ hx⟩) }

theorem handleRequest_leader {remote : Addr} {req : Request} (hn : 0 < E.config.n)
    (h : GoodLeader E.config safe g s) (hgen : g.Genuine req)
    (horder : safe → checkDuplicate s req = .fresh →
      InOrder s (s.lastSlowPath + 1) req (s.pendingPrepareOKs.map Prod.snd)) :
    Meets E safe g (handleRequest E remote req) s fun _ g' t => GoodLeader E.config safe g' t := by
  have hreply {m : ReplyMessage} {t : Replica} (ht : GoodLeader E.config safe g t) :
      Meets E safe g (emit (.toClient remote (.reply m))) t
        fun _ g' t => GoodLeader E.config safe g' t :=
    spec_emit.mpr (Ends.sends ht (by simp [Net.packets]))
  unfold handleRequest
  simp only [spec_get_bind, spec_ite, spec_pure]
  refine ⟨fun _ => Ends.same h, fun _ => ?_⟩
  simp only [spec_modify_bind]
  cases hdup : checkDuplicate s req with
  | stale => exact Ends.same { h with }
  | unreplied => exact Ends.same { h with }
  | replied reply => exact spec_whenSome.mpr ⟨fun m _ => hreply { h with }, fun _ => Ends.same { h with }⟩
  | fresh =>
    simp only [spec_modify_bind]
    rw [if_pos (amLeader_of hr h.view)]
    have hup : GoodLeader E.config safe g (updateClientTable { s with
        clientAddresses := fun c => if c = req.clientid then some remote else s.clientAddresses c } req) :=
      { h with
        table := fun x hx => ⟨(h.table x hx).1.trans (table_updateClientTable _ req _).1,
          (table_updateClientTable _ req _).2 (h.table x hx).2⟩ }
    exact leadRequest_spec hr hn hup (fresh_above h hdup) (entry_updateClientTable ..) hgen
      fun hs => horder hs hdup

theorem handleRequestStateTransfer_leader {q : Nat} {m : RequestStateTransferMessage}
    (h : GoodLeader E.config safe g s) (hq : q ≠ 0) (hv : m.view = 0)
    (hm : m.opnum ≤ g.committed q) :
    Meets E safe g (handleRequestStateTransfer E (.replica q) m) s
      fun _ g' t => GoodLeader E.config safe g' t := by
  unfold handleRequestStateTransfer
  simp only [spec_get_bind, spec_ite, spec_pure, spec_assert_bind, spec_emit]
  refine ⟨fun _ => Ends.same h, fun _ => ⟨fun hgt => ?_, fun _ => ⟨fun _ => Ends.same h,
    fun _ => ⟨fun _ => Ends.sends h ?_, fun _ => Ends.same (h.halted hr rfl rfl rfl)⟩⟩⟩⟩
  · rw [hv] at hgt
    exact absurd hgt (Nat.not_lt_zero _)
  · intro p hp
    obtain rfl := List.mem_singleton.mp hp
    have hlog := h.log
    have hnum := s.log.numberedFrom_dump (m.opnum + 1)
    refine ⟨hq, m.opnum, (g.logs 0).length, ?_⟩
    exact
      { view := h.view, start := hm, logged := Nat.le_refl _
        numbered := by simpa using hnum
        entries := by
          rw [Log.contents_dump, hlog, List.take_length]
          simp
        opnum := le_max_of_le_right (h.committed_le.trans h.toNode.length_le.1)
        views := by
          intro e he
          have hmem : e.content ∈ g.logs 0 := by
            rw [← hlog]
            exact List.mem_map_of_mem (List.mem_of_mem_drop he)
          exact h.good.view _ hmem }

omit hr in
theorem handleUnloggedRequest_leader {remote : Addr} {op : String}
    (h : GoodLeader E.config safe g s) :
    Meets E safe g (handleUnloggedRequest E remote op) s
      fun _ g' t => GoodLeader E.config safe g' t := by
  unfold handleUnloggedRequest
  simp only [spec_get_bind, spec_ite, spec_pure, spec_modify_bind, spec_emit]
  refine ⟨fun _ => Ends.same h, fun _ => Ends.sends ?_ (by simp [Net.packets])⟩
  exact { h with executed := (executions_append ..).trans ((List.append_nil _).trans h.executed) }

/-- The leader keeps its invariant whatever it receives, when a fast-path acknowledgement that it takes
    is in order. -/
theorem receiveMessage_leader {p : Net.Packet ToReplicaMessage} (hn : 0 < E.config.n)
    (h : GoodLeader E.config safe g s) (hdst : p.dst = E.replicaIdx) (hp : GoodPacket E.config g p)
    (horder : safe → ∀ m, p.msg = .prepareOK m → m.slowpath = 0 → m.opnum ≤ s.lastSlowPath → ∀ y,
      s.log.contents[m.opnum - 1]? = some y → matchesLog y.2 m → InOrder s m.opnum y.2 [m]) :
    Meets E safe g (receiveMessage E p.src p.msg) s
      fun _ g' t => GoodLeader E.config safe g' t := by
  rw [hr] at hdst
  unfold GoodPacket at hp
  split at hp
  · exact absurd hdst hp.1
  · next m hm =>
    rw [hm]
    exact (handlePrepareOK_leader hr hn h hp fun hs => horder hs m hm).mono fun _ _ _ _ ht => ht.1
  · exact absurd hdst hp.1
  · next m hm =>
    obtain ⟨q, hsrc, hq, hv, ho⟩ := hp
    rw [hm, hsrc]
    exact handleRequestStateTransfer_leader hr h hq hv ho
  · exact absurd hdst hp.1
  · exact hp.elim

theorem timeout_leader {u : Timer} (h : GoodLeader E.config safe g s) :
    Meets E safe g (timeout E u) s fun _ g' t => GoodLeader E.config safe g' t := by
  cases u with
  | stateTransfer => exact Ends.same { h with }
  | resendPrepare =>
    refine (resendPrepare_spec hr h).mono ?_
    rintro _ g' t _ ⟨rfl, ht, _⟩
    exact ht

end Leader
end Dsnet.FastPaxos
