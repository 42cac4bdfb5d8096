import Dsnet.VR.System
import Dsnet.VR.Effects

/-! Runs that stay in view 0: no view change timer fires and no replica restarts. Then the log of
    replica 0 only grows, every other log and every message is a piece of it, and no assertion can
    fail.

    A step changes one replica. What it does to the leader is `LeadsOn`, what it does to another
    replica is `Follows`; both say that the replica only moves forward, which is all the invariants
    of the others and of the messages under way depend on (`GoodPacket.mono`). -/

namespace Dsnet.VR.SingleView
open Handler

/-! ### Logs and messages -/

/-- Requests of one client are logged in increasing order, and all in view 0. -/
structure GoodLog (l : List (Nat × Request)) : Prop where
  view : ∀ x ∈ l, x.1 = 0
  increasing : l.Pairwise fun x y => x.2.clientid = y.2.clientid → x.2.clientreqid < y.2.clientreqid

/-- What a message may say about the group: the log of the leader, how much of it each replica
    holds and has committed. -/
structure Snapshot where
  log : List (Nat × Request)
  held : Nat → Nat
  committed : Nat → Nat

/-- The group has moved on. -/
structure Grows (g g' : Snapshot) : Prop where
  log : g.log <+: g'.log
  held : ∀ r, g.held r ≤ g'.held r
  committed : ∀ r, g.committed r ≤ g'.committed r

/-- A Prepare carries a piece of the leader's log. -/
structure GoodPrepare (l : List (Nat × Request)) (m : PrepareMessage) : Prop where
  view : m.view = 0
  start : 1 ≤ m.batchstart
  order : m.batchstart ≤ m.opnum
  logged : m.opnum ≤ l.length
  request : m.request = ((l.take m.opnum).drop (m.batchstart - 1)).map Prod.snd

/-- A StateTransfer to a replica that has committed `c` entries carries the leader's entries from
    `a`, at or before them, to `b`. -/
structure GoodTransfer (l : List (Nat × Request)) (c : Nat) (m : StateTransferMessage)
    (a b : Nat) : Prop where
  view : m.view = 0
  start : a ≤ c
  logged : b ≤ l.length
  numbered : Log.NumberedFrom (a + 1) m.entries
  entries : m.entries.map LogEntry.content = (l.take b).drop a
  opnum : m.opnum ≤ max a b

/-- The messages of a view, with who they are from and to. -/
def GoodPacket (n : Nat) (g : Snapshot) (p : Packet) : Prop :=
  match p.msg with
  | .prepare m => p.dst ≠ 0 ∧ GoodPrepare g.log m
  | .prepareOK m => m.view = 0 ∧ m.replicaidx ≠ 0 ∧ m.replicaidx < n ∧
      m.opnum ≤ g.held m.replicaidx
  | .commit m => p.dst ≠ 0 ∧ m.view = 0
  | .requestStateTransfer m =>
    ∃ r, p.src = .replica r ∧ r ≠ 0 ∧ m.view = 0 ∧ m.opnum ≤ g.committed r
  | .stateTransfer m => p.dst ≠ 0 ∧ ∃ a b, GoodTransfer g.log (g.committed p.dst) m a b
  | _ => False

theorem GoodPrepare.mono {l l' : List (Nat × Request)} {m : PrepareMessage} (h : GoodPrepare l m)
    (hl : l <+: l') : GoodPrepare l' m := by
  obtain ⟨t, rfl⟩ := hl
  refine ⟨h.view, h.start, h.order, h.logged.trans (by simp), ?_⟩
  rw [h.request, List.take_append_of_le_length h.logged]

theorem GoodTransfer.mono {l l' : List (Nat × Request)} {c c' a b : Nat} {m : StateTransferMessage}
    (h : GoodTransfer l c m a b) (hl : l <+: l') (hc : c ≤ c') : GoodTransfer l' c' m a b := by
  obtain ⟨t, rfl⟩ := hl
  refine ⟨h.view, h.start.trans hc, h.logged.trans (by simp), h.numbered, ?_, h.opnum⟩
  rw [h.entries, List.take_append_of_le_length h.logged]

theorem GoodPacket.mono {n : Nat} {g g' : Snapshot} {p : Packet} (h : GoodPacket n g p)
    (hg : Grows g g') : GoodPacket n g' p := by
  unfold GoodPacket at h ⊢
  split at h
  · exact ⟨h.1, h.2.mono hg.log⟩
  · exact ⟨h.1, h.2.1, h.2.2.1, h.2.2.2.trans (hg.held _)⟩
  · exact h
  · obtain ⟨r, hr, h0, hv, ho⟩ := h
    exact ⟨r, hr, h0, hv, ho.trans (hg.committed r)⟩
  · obtain ⟨h0, a, b, ht⟩ := h
    exact ⟨h0, a, b, ht.mono hg.log (hg.committed _)⟩
  · exact h.elim

theorem GoodPrepare.length {l : List (Nat × Request)} {m : PrepareMessage} (h : GoodPrepare l m) :
    m.request.length = m.opnum - m.batchstart + 1 := by
  have h₁ := h.start
  have h₂ := h.order
  have h₃ := h.logged
  rw [h.request, List.length_map, List.length_drop, List.length_take]
  omega

/-! ### Replicas -/

/-- What holds of every replica. -/
structure GoodReplica (s : Replica) : Prop where
  view : s.view = 0
  status : s.status = .normal
  recovery : s.active .recovery = false
  lastOp : s.lastOp = s.log.entries.length
  committed : s.lastCommitted ≤ s.lastOp
  marked : MarkedLog s
  executed : ExecutedLog s

/-- The client table holds request numbers of the first `k` entries of the log. -/
def TableFrom (s : Replica) (k : Nat) : Prop :=
  ∀ c, (s.clientEntry c).lastReqId = 0 ∨ ∃ i x, i < k ∧ s.log.contents[i]? = some x ∧
    x.2.clientid = c ∧ x.2.clientreqid = (s.clientEntry c).lastReqId

/-- What holds of a replica that follows a leader with the log `l`. -/
structure GoodFollower (l : List (Nat × Request)) (s : Replica) : Prop extends GoodReplica s where
  log : s.log.contents <+: l
  idle : ∀ t, s.active t = true → t = .viewChange ∨ t = .stateTransfer
  pending : ∀ x ∈ s.pendingPrepares, GoodPrepare l x.2
  table : TableFrom s s.lastOp

/-- `f` others hold the first `k` entries. -/
def HeldByOthers (c : Configuration) (held : Nat → Nat) (k : Nat) : Prop :=
  ∃ Q : Finset Nat, c.f ≤ Q.card ∧ ∀ r ∈ Q, r ≠ 0 ∧ r < c.n ∧ k ≤ held r

/-- What holds of the leader when the others hold this much. -/
structure GoodLeader (c : Configuration) (held : Nat → Nat) (s : Replica) : Prop
    extends GoodReplica s where
  log : GoodLog s.log.contents
  batch : s.lastBatchEnd ≤ s.lastOp
  closing : s.active .closeBatch = true → s.lastBatchEnd < s.lastOp
  resending : s.active .resendPrepare = true → s.lastPrepare ≠ none
  lastPrepare : ∀ p, s.lastPrepare = some p → GoodPrepare s.log.contents p
  required : s.prepareOKQuorum.numRequired = c.f
  acks : ∀ k, ∀ x ∈ (s.prepareOKQuorum.messages (0, k)).toList, x.1 ≠ 0 ∧ x.1 < c.n ∧ k ≤ held x.1
  quorum : HeldByOthers c held s.lastCommitted
  table : ∀ x ∈ s.log.contents, x.2.clientreqid ≤ (s.clientEntry x.2.clientid).lastReqId ∧
    s.clientTable x.2.clientid ≠ none

/-! ### Executing -/

variable {E : Env} {s s' : Replica} {l : List (Nat × Request)}

/-- Replicas that only differ in what `GoodReplica` does not look at. -/
theorem GoodReplica.congr (h : GoodReplica s) (hv : s'.view = s.view) (hst : s'.status = s.status)
    (ha : s'.active .recovery = s.active .recovery) (hop : s'.lastOp = s.lastOp)
    (hlc : s'.lastCommitted = s.lastCommitted) (hl : s'.log = s.log)
    (hu : s'.executed = s.executed) : GoodReplica s' := by
  obtain ⟨h₁, h₂, h₃, h₄, h₅, h₆, h₇⟩ := h
  refine ⟨hv ▸ h₁, hst ▸ h₂, ha ▸ h₃, ?_, ?_, ?_, ?_⟩
  · rw [hop, hl, h₄]
  · rw [hop, hlc]
    exact h₅
  · unfold MarkedLog at h₆ ⊢
    rwa [hl, hlc]
  · unfold ExecutedLog at h₇ ⊢
    rwa [hl, hlc, hu]

/-- A good replica can execute all it has logged. -/
theorem sat_commitUpTo_good {k : Nat} (h : GoodReplica s) (hk : k ≤ s.lastOp) :
    Sat (commitUpTo E k) s
      (fun _ s' o => Commits E s s' ∧ s'.lastCommitted = max s.lastCommitted k ∧ GoodReplica s' ∧
        ∀ x ∈ o, x.isReply) (fun _ _ => False) := by
  refine sat_commitUpTo.mono ?_ ?_
  · rintro _ t o ⟨hc, hlc, ho⟩
    refine ⟨hc, hlc, ?_, ho⟩
    have hlen : t.log.entries.length = s.log.entries.length := by
      rw [← Log.length_contents, hc.contents, Log.length_contents]
    have hmarked := hc.markedLog h.marked
    have hexec := hc.executedLog h.executed
    obtain ⟨lc, log, table, up, rfl⟩ := hc.frame
    have hle := h.committed
    exact ⟨h.view, h.status, h.recovery, h.lastOp.trans hlen.symm,
      by simp only at hlc ⊢; omega, hmarked, hexec⟩
  · rintro t o ⟨t', hc, hlt, hfind, _⟩
    have hlen := (Log.find_eq_none (Nat.succ_le_succ (Nat.zero_le _))).mp hfind
    rw [← Log.length_contents, hc.contents, Log.length_contents, ← h.lastOp] at hlen
    omega

theorem TableFrom.mono {k k' : Nat} (h : TableFrom s k) (hk : k ≤ k') : TableFrom s k' := by
  intro c
  refine (h c).imp_right ?_
  rintro ⟨i, x, hi, hx⟩
  exact ⟨i, x, by omega, hx⟩

theorem TableFrom.commits {k : Nat} (hc : Commits E s s') (h : TableFrom s k)
    (hk : s'.lastCommitted ≤ k) : TableFrom s' k := by
  induction hc with
  | refl => exact h
  | @tail s₁ s₂ _ hstep ih =>
    obtain ⟨e, he, rfl⟩ := hstep
    have hlt : s₁.lastCommitted < k := hk
    have hin := (Log.getElem?_contents_of_find he).2
    have hcontents : (afterCommit E s₁ e).log.contents = s₁.log.contents :=
      Log.contents_setStatus ..
    intro c
    have hold := ih hlt.le c
    rw [hcontents, lastReqId_afterCommit]
    split_ifs with hc
    · rcases Nat.le_total (s₁.clientEntry c).lastReqId e.request.clientreqid with hle | hle
      · rw [max_eq_right hle]
        exact Or.inr ⟨s₁.lastCommitted, e.content, hlt, hin, hc.symm, rfl⟩
      · rw [max_eq_left hle]
        exact hold
    · exact hold

/-! ### The other replicas -/

/-- An output of a replica other than the leader, in the state `s` it has reached. -/
def Sent (E : Env) (s : Replica) : Output → Prop
  | .toReplica _ (.prepareOK m) => m.view = 0 ∧ m.replicaidx = E.replicaIdx ∧
      m.opnum ≤ s.log.entries.length
  | .toAll (.requestStateTransfer m) => m.view = 0 ∧ m.opnum ≤ s.lastCommitted
  | .toClient .. => True
  | _ => False

/-- A replica that follows the log `l` has moved forward. -/
structure Follows (E : Env) (l : List (Nat × Request)) (s s' : Replica) (o : List Output) :
    Prop where
  good : GoodFollower l s'
  held : s.log.entries.length ≤ s'.log.entries.length
  committed : s.lastCommitted ≤ s'.lastCommitted
  sent : ∀ x ∈ o, Sent E s' x

theorem Sent.mono {x : Output} (h : Sent E s x)
    (hl : s.log.entries.length ≤ s'.log.entries.length)
    (hc : s.lastCommitted ≤ s'.lastCommitted) : Sent E s' x := by
  unfold Sent at h ⊢
  split at h
  · exact ⟨h.1, h.2.1, h.2.2.trans hl⟩
  · exact ⟨h.1, h.2.trans hc⟩
  · trivial
  · exact h.elim

theorem Follows.refl (h : GoodFollower l s) : Follows E l s s [] :=
  ⟨h, Nat.le_refl _, Nat.le_refl _, by simp⟩

theorem Follows.trans {s₁ s₂ : Replica} {o o' : List Output} (h : Follows E l s s₁ o)
    (h' : Follows E l s₁ s₂ o') : Follows E l s s₂ (o ++ o') := by
  refine ⟨h'.good, h.held.trans h'.held, h.committed.trans h'.committed, fun x hx => ?_⟩
  rcases List.mem_append.mp hx with hx | hx
  · exact (h.sent x hx).mono h'.held h'.committed
  · exact h'.sent x hx

/-- The loop rule for a follower. -/
theorem sat_forEach_follows {α : Type} {f : α → VRHandler Unit} {as : List α}
    (hf : ∀ a ∈ as, ∀ t, GoodFollower l t →
      Sat (f a) t (fun _ t' o => Follows E l t t' o) (fun _ _ => False))
    (h : GoodFollower l s) :
    Sat (forEach as f) s (fun _ s' o => Follows E l s s' o) (fun _ _ => False) := by
  refine (sat_forEach (A := fun _ _ => False) (fun rest t o => Follows E l s t o ∧ ∀ a ∈ rest, a ∈ as)
    ⟨.refl h, fun _ ha => ha⟩ ?_).mono (fun _ _ _ h' => h'.1) (fun _ _ h' => h')
  rintro a rest t o ⟨ht, hrest⟩
  refine (hf a (hrest a (List.mem_cons_self ..)) t ht.good).mono ?_ (fun _ _ h' => h')
  exact fun _ t' o' ht' => ⟨ht.trans ht', fun b hb => hrest b (List.mem_cons_of_mem _ hb)⟩

theorem sat_requestStateTransfer_follows (h : GoodFollower l s) :
    Sat requestStateTransfer s (fun _ s' o => Follows E l s s' o) (fun _ _ => False) := by
  simp only [requestStateTransfer, sat_bind, sat_get, sat_ite, sat_pure, sat_modify, sat_emit,
    List.nil_append]
  refine ⟨fun _ => .refl h, fun _ => ⟨?_, Nat.le_refl _, Nat.le_refl _, ?_⟩⟩
  · exact ⟨h.toGoodReplica.congr rfl rfl rfl rfl rfl rfl rfl, h.log, h.idle, h.pending, h.table⟩
  · simp only [List.mem_singleton, forall_eq]
    exact ⟨h.view, Nat.le_refl _⟩

theorem sat_commitUpTo_follows {k : Nat} (h : GoodFollower l s) (hk : k ≤ s.lastOp) :
    Sat (commitUpTo E k) s
      (fun _ s' o => Follows E l s s' o ∧ Commits E s s') (fun _ _ => False) := by
  refine (sat_commitUpTo_good h.toGoodReplica hk).mono ?_ (fun _ _ h => h)
  rintro _ t o ⟨hc, hlc, hgood, ho⟩
  have hcontents := hc.contents
  have hlen : t.log.entries.length = s.log.entries.length := by
    rw [← Log.length_contents, hcontents, Log.length_contents]
  have htable := h.table.commits hc (by have := h.committed; omega)
  refine ⟨⟨?_, hlen.symm.le, hc.lastCommitted_le, fun x hx => ?_⟩, hc⟩
  · obtain ⟨_, _, _, _, rfl⟩ := hc.frame
    exact ⟨hgood, hcontents ▸ h.log, h.idle, h.pending, htable⟩
  · cases x <;> first | trivial | exact (ho _ hx).elim

theorem GoodReplica.amLeader_iff (h : GoodReplica s) : amLeader E s ↔ E.replicaIdx = 0 := by
  unfold amLeader Configuration.getLeaderIndex
  rw [h.view, Nat.zero_mod, eq_comm]

/-- A timer a follower uses. -/
theorem GoodFollower.start (h : GoodFollower l s) : GoodFollower l (s.start .viewChange) := by
  refine ⟨h.toGoodReplica.congr rfl rfl rfl rfl rfl rfl rfl, h.log, fun t ht => ?_, h.pending,
    h.table⟩
  by_cases hv : t = .viewChange
  · exact Or.inl hv
  · exact h.idle t (by simpa [Replica.start, hv] using ht)

theorem Follows.of_start {o : List Output} (h : Follows E l (s.start .viewChange) s' o) :
    Follows E l s s' o := ⟨h.good, h.held, h.committed, h.sent⟩

/-- The table does not know a later request of a client than the one at `k`, which comes next. -/
theorem TableFrom.lastReqId_le {k : Nat} {x : Nat × Request} (h : TableFrom s k)
    (hl : GoodLog l) (hlog : s.log.contents <+: l) {j : Nat} (hx : l[j]? = some x) (hk : k ≤ j + 1) :
    (s.clientEntry x.2.clientid).lastReqId ≤ x.2.clientreqid := by
  rcases h x.2.clientid with h0 | ⟨i, y, hi, hy, hc, hreq⟩
  · omega
  · have hy' : l[i]? = some y := getElem?_mono hlog hy
    rcases Nat.lt_or_ge i j with hij | hij
    · rw [← hreq]
      obtain ⟨hil, rfl⟩ := List.getElem?_eq_some_iff.mp hy'
      obtain ⟨hjl, rfl⟩ := List.getElem?_eq_some_iff.mp hx
      exact (List.pairwise_iff_getElem.mp hl.increasing i j hil hjl hij hc).le
    · obtain rfl : i = j := by omega
      rw [hx] at hy'
      cases hy'
      exact hreq.symm.le

theorem TableFrom.append {k : Nat} {x : LogEntry} (h : TableFrom s s.log.entries.length)
    (hl : s.log.append x = some s'.log)
    (ht : ∀ c, (s'.clientEntry c).lastReqId = ((recordRequest s x.request).clientEntry c).lastReqId)
    (hk : k = s.log.entries.length + 1) : TableFrom s' k := by
  have hcontents := Log.contents_append hl
  intro c
  rw [ht, lastReqId_recordRequest, hcontents, hk]
  split_ifs with hc
  · refine Or.inr ⟨s.log.entries.length, x.content, Nat.lt_succ_self _, ?_, hc.symm, rfl⟩
    rw [← Log.length_contents, List.getElem?_concat_length]
  · refine (h c).imp_right ?_
    rintro ⟨i, y, hi, hy, hyc⟩
    exact ⟨i, y, Nat.lt_succ_of_lt hi, getElem?_mono (List.prefix_append ..) hy, hyc⟩

/-- Appending an entry that is not executed. -/
theorem GoodReplica.append {x : LogEntry} (h : GoodReplica s) (hl : s.log.append x = some s'.log)
    (hx : x.state = .prepared) (hv : s'.view = s.view) (hst : s'.status = s.status)
    (ha : s'.active .recovery = s.active .recovery) (hop : s'.lastOp = s.lastOp + 1)
    (hlc : s'.lastCommitted = s.lastCommitted) (hu : s'.executed = s.executed) :
    GoodReplica s' := by
  obtain ⟨h₁, h₂, h₃, h₄, h₅, h₆, h₇⟩ := h
  have hentries := (Log.append_eq_some.mp hl).2
  refine ⟨hv ▸ h₁, hst ▸ h₂, ha ▸ h₃, ?_, by omega, ?_, ?_⟩
  · rw [hop, hentries, List.length_append, h₄]
    rfl
  · intro i e he
    rw [hentries] at he
    rw [hlc]
    rcases of_getElem?_concat he with he | ⟨rfl, rfl⟩
    · exact h₆ i e he
    · rw [hx, if_neg (by omega)]
  · unfold ExecutedLog at h₇ ⊢
    rw [hu, h₇, hlc, Log.contents_append hl]
    refine (take_opnumbered_mono (List.prefix_append ..) ?_).symm
    rw [Log.length_contents]
    omega

theorem prefix_concat {c : List (Nat × Request)} {x : Nat × Request} (h : c <+: l)
    (hx : l[c.length]? = some x) : c ++ [x] <+: l := by
  obtain ⟨t, rfl⟩ := h
  rw [List.getElem?_append_right (Nat.le_refl _), Nat.sub_self] at hx
  cases t with
  | nil => simp at hx
  | cons y t =>
    obtain rfl : y = x := by simpa using hx
    exact ⟨t, by simp⟩

/-- The follower's log takes the next entry of the leader's. -/
theorem Follows.appended {x : LogEntry} (h : GoodFollower l s)
    (happ : s.log.append x = some s'.log) (hx : x.state = .prepared)
    (hin : l[s.lastOp]? = some x.content)
    (hframe : s' = { s with lastOp := s.lastOp + 1, log := s'.log, clientTable := s'.clientTable })
    (ht : TableFrom s' s'.lastOp) : Follows E l s s' [] := by
  have hlen := h.lastOp
  have hentries := (Log.append_eq_some.mp happ).2
  refine ⟨⟨?_, ?_, ?_, ?_, ht⟩, ?_, ?_, by simp⟩
  · apply h.toGoodReplica.append happ hx <;> rw [hframe]
    rfl
  · rw [Log.contents_append happ]
    exact prefix_concat h.log (by rw [Log.length_contents, ← hlen]; exact hin)
  · rw [hframe]
    exact h.idle
  · rw [hframe]
    exact h.pending
  · rw [hentries, List.length_append]
    exact Nat.le_add_right ..
  · rw [hframe]

/-- The next request of the leader's log is appended; one that is there already is skipped. -/
theorem sat_appendPrepared_follows {op : Nat} {x : Nat × Request} (hl : GoodLog l)
    (h : GoodFollower l s) (hx : l[op]? = some x) (hop : op ≤ s.lastOp) :
    Sat (appendPrepared 0 (op + 1) x.2) s
      (fun _ s' o => Follows E l s s' o ∧ op + 1 ≤ s'.lastOp) (fun _ _ => False) := by
  simp only [appendPrepared, sat_bind, sat_get, sat_ite, sat_pure, sat_modify, sat_ofOption,
    sat_updateClientTable, List.append_nil]
  refine ⟨fun hle => ⟨.refl h, hle⟩, fun hgt => ?_⟩
  obtain rfl : op = s.lastOp := by omega
  have hview : x.1 = 0 := hl.view x (List.mem_of_getElem? hx)
  have hlen := h.lastOp
  refine ⟨fun l' happ => ⟨fun _ => ?_, fun hno => ?_⟩, fun hnone => ?_⟩
  · have hcontent : ((0, x.2) : Nat × Request) = x := Prod.ext hview.symm rfl
    refine ⟨Follows.appended h happ rfl (by rw [hx, ← hcontent]; rfl) rfl ?_, Nat.le_refl _⟩
    exact TableFrom.append (hlen ▸ h.table) happ (fun c => rfl) (congrArg (· + 1) hlen)
  · exact hno (h.table.lastReqId_le hl h.log hx (Nat.le_succ _))
  · exact Log.append_eq_none.mp hnone (congrArg (· + 1) hlen)

/-- The loop of `HandlePrepare`, over the requests from `k + 1` on. -/
theorem sat_appendPrepareds {k : Nat} {xs : List (Nat × Request)} (hl : GoodLog l)
    (h : GoodFollower l s) (hxs : xs <+: l.drop k) (hk : k ≤ s.lastOp) :
    Sat (forEach ((xs.map Prod.snd).zipIdx (k + 1)) fun (req, op) => appendPrepared 0 op req) s
      (fun _ s' o => Follows E l s s' o ∧ k + xs.length ≤ s'.lastOp) (fun _ _ => False) := by
  refine (sat_forEach (A := fun _ _ => False) (fun rest t o => Follows E l s t o ∧
    ∃ ys j, rest = (ys.map Prod.snd).zipIdx (j + 1) ∧ ys <+: l.drop j ∧ j ≤ t.lastOp ∧
      j + ys.length = k + xs.length) ⟨.refl h, xs, k, rfl, hxs, hk, rfl⟩ ?_).mono ?_ (fun _ _ h => h)
  · rintro ⟨req, op⟩ rest t o ⟨ht, ys, j, hrest, hys, hj, hlen⟩
    cases ys with
    | nil => simp at hrest
    | cons y ys =>
      obtain ⟨⟨rfl, rfl⟩, rfl⟩ : (req = y.2 ∧ op = j + 1) ∧
          rest = (ys.map Prod.snd).zipIdx (j + 1 + 1) := by simpa using hrest
      obtain ⟨tail, htail⟩ := hys
      have hy : l[j]? = some y := by rw [← List.head?_drop, ← htail]; rfl
      refine (sat_appendPrepared_follows (E := E) hl ht.good hy hj).mono ?_ (fun _ _ h => h)
      rintro _ t' o' ⟨ht', hj'⟩
      refine ⟨ht.trans ht', ys, j + 1, rfl, ⟨tail, ?_⟩, hj', by simp at hlen; omega⟩
      rw [← List.tail_drop, ← htail]
      rfl
  · rintro _ t o ⟨ht, ys, j, hrest, _, hj, hlen⟩
    obtain rfl : ys = [] := by
      cases ys with
      | nil => rfl
      | cons y ys => simp at hrest
    exact ⟨ht, by simp at hlen; omega⟩

/-- An acknowledgement of what the log holds. -/
theorem Follows.ack {o : List Output} {k : Nat} (h : Follows E l s s' o) (hk : k ≤ s'.lastOp)
    (i : Nat) : Follows E l s s'
      (o ++ [.toReplica i (.prepareOK { view := 0, opnum := k, replicaidx := E.replicaIdx })]) := by
  refine ⟨h.good, h.held, h.committed, fun x hx => ?_⟩
  rcases List.mem_append.mp hx with hx | hx
  · exact h.sent x hx
  · obtain rfl := List.mem_singleton.mp hx
    exact ⟨rfl, rfl, h.good.lastOp ▸ hk⟩

/-- A Prepare that comes too early is kept for later. -/
theorem sat_queuePrepare {remote : Addr} {m : PrepareMessage} (hm : GoodPrepare l m)
    (h : GoodFollower l s) :
    Sat requestStateTransfer s (fun _ s' o => Follows E l s
      { s' with pendingPrepares := s'.pendingPrepares ++ [(remote, m)] } o) (fun _ _ => False) := by
  refine (sat_requestStateTransfer_follows (E := E) h).mono (fun _ t o ht => ?_) (fun _ _ h => h)
  have hg := ht.good
  refine ⟨⟨hg.toGoodReplica.congr rfl rfl rfl rfl rfl rfl rfl, hg.log, hg.idle, ?_, hg.table⟩,
    ht.held, ht.committed, ht.sent⟩
  intro x hx
  rcases List.mem_append.mp hx with hx | hx
  · exact hg.pending x hx
  · obtain rfl := List.mem_singleton.mp hx
    exact hm

theorem sat_handlePrepare_follows {remote : Addr} {m : PrepareMessage} (hE : E.replicaIdx ≠ 0)
    (hl : GoodLog l) (hm : GoodPrepare l m) (h : GoodFollower l s) :
    Sat (handlePrepare E remote m) s (fun _ s' o => Follows E l s s' o) (fun _ _ => False) := by
  have hs := h.start
  have hstart := hm.start
  have hview : ¬ m.view > s.view ∧ ¬ m.view < s.view := by
    rw [hm.view, h.view]
    exact ⟨Nat.lt_irrefl 0, Nat.lt_irrefl 0⟩
  have hno : ¬ amLeader E s := fun hlead => hE (h.amLeader_iff.mp hlead)
  simp only [handlePrepare, sat_bind, sat_get, sat_ite, sat_pure, sat_modify, sat_assert, sat_emit,
    List.nil_append, List.append_nil, h.status, hview.1, hview.2, hno, hm.order, hm.length.symm,
    ne_eq, not_true_eq_false, not_false_eq_true, false_implies, true_implies, true_and,
    and_true]
  refine ⟨fun hop => ?_, fun hop => ⟨fun hearly => ?_, fun hin => ?_⟩⟩
  · have hack := (Follows.refl (E := E) hs).ack hop (E.config.getLeaderIndex s.view)
    rw [hm.view]
    exact hack.of_start
  · exact (sat_queuePrepare hm hs).mono (fun _ _ _ h' => h'.of_start) (fun _ _ h => h)
  · have hxs : (l.take m.opnum).drop (m.batchstart - 1) <+: l.drop (m.batchstart - 1) :=
      (List.take_prefix ..).drop _
    have hloop := sat_appendPrepareds (E := E) hl hs hxs (Nat.sub_le_of_le_add (Nat.not_lt.mp hin))
    rw [Nat.sub_add_cancel hstart, ← hm.request] at hloop
    rw [hm.view]
    refine hloop.mono ?_ (fun _ _ h => h)
    rintro _ t o ⟨ht, hend⟩
    have hlen := hm.length
    have hord := hm.order
    rw [hm.request, List.length_map] at hlen
    refine ⟨fun _ => (ht.ack (k := m.opnum) (by omega) _).of_start, fun hne => hne ?_⟩
    rw [hm.request, List.length_map]
    omega

theorem sat_handleCommit_follows {m : CommitMessage} (hE : E.replicaIdx ≠ 0) (hm : m.view = 0)
    (h : GoodFollower l s) :
    Sat (handleCommit E m) s (fun _ s' o => Follows E l s s' o) (fun _ _ => False) := by
  have hview : ¬ m.view > s.view ∧ ¬ m.view < s.view := by
    rw [hm, h.view]
    exact ⟨Nat.lt_irrefl 0, Nat.lt_irrefl 0⟩
  have hno : ¬ amLeader E s := fun hlead => hE (h.amLeader_iff.mp hlead)
  have hs := h.start
  simp only [handleCommit, sat_bind, sat_get, sat_ite, sat_pure, sat_modify, sat_assert,
    List.nil_append, h.status, hview.1, hview.2, hno, ne_eq, not_true_eq_false, not_false_eq_true,
    false_implies, true_implies, true_and, and_true]
  refine ⟨fun _ => (Follows.refl hs).of_start, fun _ => ⟨fun _ => ?_, fun hop => ?_⟩⟩
  · exact (sat_requestStateTransfer_follows hs).mono (fun _ _ _ h' => h'.of_start) (fun _ _ h => h)
  · exact (sat_commitUpTo_follows hs (Nat.not_lt.mp hop)).mono (fun _ _ _ h' => h'.1.of_start)
      (fun _ _ h => h)

/-! ### State transfer -/

/-- The entries of a transfer that are missing are appended; the others are there already. -/
theorem sat_installTransferred_follows (hl : GoodLog l) : ∀ {es : List LogEntry} {old k : Nat}
    {s : Replica}, GoodFollower l s → Log.NumberedFrom (k + 1) es →
    es.map LogEntry.content <+: l.drop k → k ≤ s.lastOp →
    Sat (installTransferred es old) s (fun old' s' o => (Follows E l s s' o ∧ old' = old ∧
      (∀ j, TableFrom s j → TableFrom s' j)) ∧ s.lastOp ≤ s'.lastOp ∧ k + es.length ≤ s'.lastOp)
      (fun _ _ => False)
  | [], old, k, s, h, _, _, hk => by
      simp only [installTransferred, sat_pure]
      exact ⟨⟨.refl h, trivial, fun _ ht => ht⟩, Nat.le_refl _, hk⟩
  | e :: es, old, k, s, h, hes, hpre, hk => by
      obtain ⟨he, hes⟩ := Log.numberedFrom_cons.mp hes
      obtain ⟨tail, htail⟩ := hpre
      have hy : l[k]? = some e.content := by rw [← List.head?_drop, ← htail]; rfl
      have hpre' : es.map LogEntry.content <+: l.drop (k + 1) := by
        rw [← List.tail_drop, ← htail]
        exact ⟨tail, rfl⟩
      have hview : e.view = 0 := hl.view _ (List.mem_of_getElem? hy)
      have hlen := h.lastOp
      have hskip : k + 1 ≤ s.lastOp → Sat (installTransferred es old) s
          (fun old' s' o => (Follows E l s s' o ∧ old' = old ∧
            (∀ j, TableFrom s j → TableFrom s' j)) ∧ s.lastOp ≤ s'.lastOp ∧
            k + (e :: es).length ≤ s'.lastOp) (fun _ _ => False) := fun hle =>
        (sat_installTransferred_follows hl h hes hpre' hle).mono
          (fun _ _ _ h' => ⟨h'.1, h'.2.1, by simp only [List.length_cons]; omega⟩)
          (fun _ _ h' => h')
      unfold installTransferred
      simp only [sat_bind, sat_get, sat_ite, sat_ofOption, sat_assert, sat_modify, List.nil_append]
      refine ⟨fun hlc => hskip (by have := h.committed; omega), fun hlc => ⟨fun hop =>
        ⟨fun x hx => ?_, fun hnone => ?_⟩, fun hop => ⟨fun _ => ⟨fun l' happ => ?_, fun hnone => ?_⟩,
        fun hne => hne (by omega)⟩⟩⟩
      · -- an entry that is there
        have hin := Log.getElem?_contents_of_find hx
        have hxv : x.view = 0 := hl.view _ (h.log.subset (List.mem_of_getElem? hin.2))
        have hstate : x.state = .prepared := by
          rw [h.marked _ _ (Log.find_eq_some.mp hx).2, if_neg (by omega)]
        simp only [hxv, hview, hstate, true_implies, not_true_eq_false, false_implies, and_true,
          Nat.le_refl]
        exact hskip (by omega)
      · have := (Log.find_eq_none (by omega)).mp hnone
        omega
      · -- the next entry
        obtain rfl : k = s.lastOp := by omega
        have htable : ∀ j, TableFrom s j →
            TableFrom { s with lastOp := s.lastOp + 1, log := l' } j := by
          intro j ht c
          refine (ht c).imp_right ?_
          rintro ⟨i, x, hi, hx, hxc⟩
          refine ⟨i, x, hi, ?_, hxc⟩
          rw [Log.contents_append happ]
          exact getElem?_mono (List.prefix_append ..) hx
        have hnext : Follows E l s { s with lastOp := s.lastOp + 1, log := l' } [] :=
          .appended h happ rfl hy rfl ((htable _ h.table).mono (Nat.le_succ _))
        refine (sat_installTransferred_follows hl hnext.good hes hpre' (Nat.le_refl _)).mono ?_
          (fun _ _ h' => h')
        rintro _ t o ⟨⟨ht, hold, httable⟩, hle, hend⟩
        simp only [List.length_cons]
        exact ⟨⟨hnext.trans ht, hold, fun j hj => httable j (htable j hj)⟩,
          (Nat.le_succ _).trans hle, by omega⟩
      · exact Log.append_eq_none.mp hnone (by show e.opnum = _; omega)

/-- What is not executed yet is acknowledged, from where the log ended before. -/
theorem sat_sendPrepareOKs_follows {old : Nat} (hl : GoodLog l) (h : GoodFollower l s)
    (hold : old ≤ s.lastOp) (ht : TableFrom s (max old s.lastCommitted)) :
    Sat (sendPrepareOKs E old) s (fun _ s' o => Follows E l s s' o) (fun _ _ => False) := by
  have hlen := h.lastOp
  unfold sendPrepareOKs
  simp only [sat_bind, sat_get, List.nil_append]
  -- before round `i` the table knows the entries before it
  refine (sat_forEach (A := fun _ _ => False) (fun rest t o => ∃ i, old ≤ i ∧
    rest = List.range' i (s.lastOp + 1 - i) ∧ t = { s with clientTable := t.clientTable } ∧
    TableFrom t (max (max old s.lastCommitted) (i - 1)) ∧ i ≤ s.lastOp + 1 ∧ ∀ x ∈ o, Sent E t x)
    ⟨old, Nat.le_refl _, rfl, rfl, ht.mono (le_max_left _ _), Nat.le_succ_of_le hold, by simp⟩
    ?_).mono ?_ (fun _ _ h => h)
  · rintro a rest t o ⟨i, hi, hrest, hframe, htable, hend, ho⟩
    obtain ⟨rfl, hlt, rfl⟩ : a = i ∧ i ≤ s.lastOp ∧
        rest = List.range' (i + 1) (s.lastOp + 1 - (i + 1)) := by
      rw [show s.lastOp + 1 - (i + 1) = s.lastOp + 1 - i - 1 by omega]
      cases hn : s.lastOp + 1 - i with
      | zero => simp [hn] at hrest
      | succ n =>
        rw [hn, List.range'_succ] at hrest
        cases hrest
        exact ⟨rfl, by omega, rfl⟩
    have hlog : t.log = s.log := by rw [hframe]
    have hview : t.view = 0 := by rw [hframe]; exact h.view
    have hlc : t.lastCommitted = s.lastCommitted := by rw [hframe]
    simp only [sendPrepareOK, sat_bind, sat_get, sat_ite, sat_pure, sat_ofOption, sat_assert,
      sat_updateClientTable, sat_emit, List.nil_append, hlog, hview, hlc]
    refine ⟨fun hle => ?_, fun hgt => ⟨fun x hx => ⟨fun _ => ⟨fun _ => ?_, fun hno => hno ?_⟩,
      fun hno => hno ?_⟩, fun hnone => ?_⟩⟩
    · exact ⟨a + 1, by omega, rfl, hframe, htable.mono (by omega), by omega, by simpa using ho⟩
    · refine ⟨a + 1, by omega, rfl, ?_, fun c => ?_, by omega, fun y hy => ?_⟩
      · rw [hframe]
        rfl
      · rw [lastReqId_recordRequest]
        split_ifs with hc
        · have hin := (Log.getElem?_contents_of_find hx).2
          exact Or.inr ⟨a - 1, x.content, by omega, by rw [← hlog] at hin; exact hin, hc.symm, rfl⟩
        · exact htable.mono (by omega) c
      · rcases List.mem_append.mp hy with hy | hy
        · exact (ho y hy).mono (Nat.le_refl _) (Nat.le_refl _)
        · obtain rfl := List.mem_singleton.mp hy
          exact ⟨rfl, rfl, by show a ≤ t.log.entries.length; rw [hlog]; omega⟩
    · have hin := getElem?_mono h.log (Log.getElem?_contents_of_find hx).2
      exact htable.lastReqId_le hl (by rw [hlog]; exact h.log) hin (by omega)
    · rw [h.marked _ _ (Log.find_eq_some.mp hx).2, if_neg (by omega)]
    · have := (Log.find_eq_none (by omega)).mp hnone
      omega
  · rintro _ t o ⟨i, hi, hrest, hframe, htable, hend, ho⟩
    have hlast : i = s.lastOp + 1 := by
      have := congrArg List.length hrest
      simp only [List.length_nil, List.length_range'] at this
      omega
    have hlc := h.committed
    have htable' : TableFrom t s.lastOp := htable.mono (by omega)
    refine ⟨⟨?_, ?_, ?_, ?_, ?_⟩, ?_, ?_, ho⟩
    · apply h.toGoodReplica.congr <;> rw [hframe]
      rfl
    all_goals rw [hframe] at htable' ⊢
    · exact h.log
    · exact h.idle
    · exact h.pending
    · exact htable'

theorem sat_handleStateTransfer_follows {m : StateTransferMessage} {a b : Nat}
    (hE : E.replicaIdx ≠ 0) (hl : GoodLog l) (hm : GoodTransfer l s.lastCommitted m a b)
    (h : GoodFollower l s) :
    Sat (handleStateTransfer E m) s (fun _ s' o => Follows E l s s' o) (fun _ _ => False) := by
  have hview : ¬ m.view > s.view ∧ ¬ m.view < s.view := by
    rw [hm.view, h.view]
    exact ⟨Nat.lt_irrefl 0, Nat.lt_irrefl 0⟩
  have hlc := h.committed
  have hpre : m.entries.map LogEntry.content <+: l.drop a := by
    rw [hm.entries]
    exact (List.take_prefix ..).drop _
  have hlen : m.entries.length = min b l.length - a := by
    rw [← List.length_map (f := LogEntry.content), hm.entries, List.length_drop, List.length_take]
  simp only [handleStateTransfer, resumeTransferred, sat_bind, sat_get, sat_ite, sat_pure, sat_when, sat_assert,
    sat_modify, List.nil_append, hview.1, hview.2, false_implies, not_false_eq_true, true_implies,
    true_and]
  refine (sat_installTransferred_follows (E := E) hl h hm.numbered hpre
    (hm.start.trans hlc)).mono ?_ (fun _ _ h => h)
  rintro old t o ⟨⟨ht, rfl, htable⟩, hle, hend⟩
  have hopnum := hm.opnum
  have hstart := hm.start
  have hlogged := hm.logged
  have hin : m.opnum ≤ t.lastOp := by omega
  refine ⟨fun _ => ?_, fun hno => hno hin⟩
  refine (sat_commitUpTo_follows ht.good hin).mono ?_ (fun _ _ h => h)
  rintro _ t₁ o₁ ⟨ht₁, hc₁⟩
  have htable₁ : TableFrom t₁ (max s.lastOp t₁.lastCommitted) :=
    ((htable _ h.table).mono (le_max_left _ _)).commits hc₁ (le_max_right _ _)
  have hle₁ : s.lastOp ≤ t₁.lastOp := by
    have h₁ := ht₁.held
    rw [← ht.good.lastOp, ← ht₁.good.lastOp] at h₁
    exact hle.trans h₁
  refine (sat_sendPrepareOKs_follows hl ht₁.good hle₁ htable₁).mono ?_ (fun _ _ h => h)
  intro _ t₂ o₂ ht₂
  have hg := ht₂.good
  have hclear : Follows E l t₂ { t₂ with pendingPrepares := [] } [] :=
    ⟨⟨hg.toGoodReplica.congr rfl rfl rfl rfl rfl rfl rfl, hg.log, hg.idle, by simp, hg.table⟩,
      Nat.le_refl _, Nat.le_refl _, by simp⟩
  refine (sat_forEach_follows (fun x hx t' ht' =>
    sat_handlePrepare_follows hE hl (hg.pending x hx) ht') hclear.good).mono ?_ (fun _ _ h => h)
  intro _ t₃ o₃ ht₃
  exact ht.trans (ht₁.trans (ht₂.trans (hclear.trans ht₃)))

/-- Every replica answers a request for entries with what it has. -/
theorem sat_handleRequestStateTransfer_good {remote : Addr} {m : RequestStateTransferMessage}
    (h : GoodReplica s) (hpre : s.log.contents <+: l) (hm : m.view = 0) :
    Sat (handleRequestStateTransfer remote m) s
      (fun _ s' o => s' = s ∧ ∃ m', o = [.toAddr remote (.stateTransfer m')] ∧
        GoodTransfer l m.opnum m' m.opnum s.log.entries.length) (fun _ _ => False) := by
  have hview : ¬ m.view > s.view := by
    rw [hm, h.view]
    exact Nat.lt_irrefl 0
  have hlc := h.committed
  have hlen := h.lastOp
  simp only [handleRequestStateTransfer, sat_bind, sat_get, sat_ite, sat_pure, sat_emit,
    List.nil_append, h.status, hview, ne_eq, not_true_eq_false, not_false_eq_true, false_implies,
    true_implies, true_and]
  refine ⟨_, rfl, ⟨h.view, Nat.le_refl _, ?_, ?_, ?_, by simp only; omega⟩⟩
  · rw [← Log.length_contents]
    exact hpre.length_le
  · have hnum := Log.numberedFrom_dump s.log (m.opnum + 1)
    rwa [Nat.max_eq_left (Nat.le_add_left 1 m.opnum)] at hnum
  · have hcontents : l.take s.log.entries.length = s.log.contents := by
      rw [← Log.length_contents]
      exact (List.prefix_iff_eq_take.mp hpre).symm
    rw [hcontents, Log.contents, ← List.map_drop, Log.dump]
    simp

/-! ### The leader -/

/-- An output of the leader, in the state `s` it has reached. -/
def LeaderSent (s : Replica) : Output → Prop
  | .toAll (.prepare m) => GoodPrepare s.log.contents m
  | .toAll (.commit m) => m.view = 0
  | .toClient .. => True
  | _ => False

/-- The leader has moved forward. -/
structure LeadsOn (c : Configuration) (held : Nat → Nat) (s s' : Replica) (o : List Output) :
    Prop where
  good : GoodLeader c held s'
  log : s.log.contents <+: s'.log.contents
  committed : s.lastCommitted ≤ s'.lastCommitted
  sent : ∀ x ∈ o, LeaderSent s' x

variable {c : Configuration} {held : Nat → Nat}

theorem LeadsOn.refl (h : GoodLeader c held s) : LeadsOn c held s s [] :=
  ⟨h, List.prefix_refl _, Nat.le_refl _, by simp⟩

theorem LeaderSent.mono {x : Output} (h : LeaderSent s x) (hl : s.log.contents <+: s'.log.contents) :
    LeaderSent s' x := by
  unfold LeaderSent at h ⊢
  split at h
  · exact h.mono hl
  · exact h
  · trivial
  · exact h.elim

theorem LeadsOn.trans {s₁ s₂ : Replica} {o o' : List Output} (h : LeadsOn c held s s₁ o)
    (h' : LeadsOn c held s₁ s₂ o') : LeadsOn c held s s₂ (o ++ o') := by
  refine ⟨h'.good, h.log.trans h'.log, h.committed.trans h'.committed, fun x hx => ?_⟩
  rcases List.mem_append.mp hx with hx | hx
  · exact (h.sent x hx).mono h'.log
  · exact h'.sent x hx

/-- The requests `CloseBatch` collects. -/
theorem batchRequests_eq (lg : Log) (hview : ∀ x ∈ lg.contents, x.1 = 0) : ∀ {n k : Nat},
    k + n ≤ lg.entries.length → batchRequests 0 lg (List.range' (k + 1) n) =
      some (((lg.contents.drop k).take n).map Prod.snd)
  | 0, k, _ => by simp [batchRequests]
  | n + 1, k, hk => by
      have hlt : k < lg.entries.length := by omega
      have hfind : lg.find (k + 1) = some lg.entries[k] :=
        Log.find_eq_some.mpr ⟨by omega, List.getElem?_eq_getElem hlt⟩
      have hnum : lg.entries[k].opnum = k + 1 := Log.opnum_of_find hfind
      have hv : lg.entries[k].view = 0 := hview _ (List.mem_map_of_mem (List.getElem_mem hlt))
      have hdrop : lg.contents.drop k = lg.entries[k].content :: lg.contents.drop (k + 1) := by
        rw [List.drop_eq_getElem_cons (by simpa using hlt)]
        simp [Log.contents]
      rw [List.range'_succ, batchRequests, hfind]
      simp only [hnum, hv, and_self, if_true]
      rw [batchRequests_eq lg hview (by omega), hdrop, List.take_succ_cons, List.map_cons]
      rfl

theorem sat_closeBatch_leads (hE : E.replicaIdx = 0) (h : GoodLeader c held s)
    (hb : s.lastBatchEnd < s.lastOp) :
    Sat (closeBatch E) s (fun _ s' o => LeadsOn c held s s' o) (fun _ _ => False) := by
  have hlead : amLeader E s := h.amLeader_iff.mpr hE
  have hlen := h.lastOp
  have hbatch := batchRequests_eq s.log h.log.view
    (show s.lastBatchEnd + (s.lastOp - s.lastBatchEnd) ≤ s.log.entries.length by omega)
  rw [show s.lastOp - s.lastBatchEnd = s.lastOp + 1 - (s.lastBatchEnd + 1) by omega] at hbatch
  simp only [closeBatch, sat_bind, sat_get, sat_assert, sat_ofOption, sat_modify, sat_emit,
    List.nil_append, List.append_nil, hlead, hb, h.view, hbatch, true_implies, not_true_eq_false,
    false_implies, and_true, Option.some.injEq, forall_eq', reduceCtorEq]
  have hp : GoodPrepare s.log.contents
      { view := 0, opnum := s.lastOp, batchstart := s.lastBatchEnd + 1,
        request := ((s.log.contents.drop s.lastBatchEnd).take
          (s.lastOp + 1 - (s.lastBatchEnd + 1))).map Prod.snd } := by
    refine ⟨rfl, Nat.le_add_left .., hb, ?_, ?_⟩
    · rw [Log.length_contents]
      exact hlen.le
    · simp only [List.drop_take, Nat.add_sub_cancel, Nat.add_sub_add_right]
  refine ⟨⟨?_, h.log, Nat.le_refl _, ?_, ?_, ?_, h.required, h.acks, h.quorum, h.table⟩,
    List.prefix_refl _, Nat.le_refl _, ?_⟩
  · exact h.toGoodReplica.congr h.view.symm rfl rfl rfl rfl rfl rfl
  · simp [Replica.stop]
  · simp [Replica.start, Replica.stop]
  · rintro p ⟨rfl⟩
    exact hp
  · simp only [List.mem_singleton, forall_eq]
    exact hp

/-- Commits what others hold. -/
theorem sat_commitUpTo_leads {k : Nat} (h : GoodLeader c held s) (hk : k ≤ s.lastOp)
    (hq : HeldByOthers c held k) :
    Sat (commitUpTo E k) s (fun _ s' o => LeadsOn c held s s' o) (fun _ _ => False) := by
  refine (sat_commitUpTo_good h.toGoodReplica hk).mono ?_ (fun _ _ h => h)
  rintro _ t o ⟨hc, hlc, hgood, ho⟩
  have hcontents := hc.contents
  have htable := hc.lastReqId_le
  have hle := hc.lastCommitted_le
  have hquorum : HeldByOthers c held t.lastCommitted := by
    rw [hlc]
    rcases max_choice s.lastCommitted k with hm | hm <;> rw [hm]
    · exact h.quorum
    · exact hq
  obtain ⟨_, _, _, _, rfl⟩ := hc.frame
  simp only at hcontents
  refine ⟨⟨hgood, ?_, h.batch, h.closing, h.resending, ?_, h.required, h.acks, hquorum, ?_⟩, ?_, hle,
    fun x hx => ?_⟩
  · rw [hcontents]
    exact h.log
  · rw [hcontents]
    exact h.lastPrepare
  · rw [hcontents]
    exact fun x hx => ⟨(h.table x hx).1.trans (htable _).1, (htable _).2 (h.table x hx).2⟩
  · rw [hcontents]
  · cases x <;> first | trivial | exact (ho _ hx).elim

theorem sat_handlePrepareOK_leads {m : PrepareOKMessage} (hE : E.replicaIdx = 0)
    (hm : m.view = 0 ∧ m.replicaidx ≠ 0 ∧ m.replicaidx < c.n ∧ m.opnum ≤ held m.replicaidx)
    (hheld : ∀ r < c.n, held r ≤ s.log.entries.length) (h : GoodLeader c held s) :
    Sat (handlePrepareOK E m) s (fun _ s' o => LeadsOn c held s s' o) (fun _ _ => False) := by
  have hview : ¬ m.view > s.view ∧ ¬ m.view < s.view := by
    rw [hm.1, h.view]
    exact ⟨Nat.lt_irrefl 0, Nat.lt_irrefl 0⟩
  have hlead : amLeader E s := h.amLeader_iff.mpr hE
  have hstatus : ¬ s.status ≠ .normal := not_not.mpr h.status
  simp only [handlePrepareOK, sat_bind, sat_get, sat_ite, sat_pure, sat_modify, sat_emit,
    sat_whenSome, sat_when, List.nil_append, List.append_nil, hstatus, hview.1, hview.2, hlead,
    not_true_eq_false, not_false_eq_true, false_implies, true_implies, true_and, and_true]
  have hs : GoodLeader c held
      { s with prepareOKQuorum := s.prepareOKQuorum.add (m.view, m.opnum) m.replicaidx m } := by
    refine ⟨h.toGoodReplica.congr rfl rfl rfl rfl rfl rfl rfl, h.log, h.batch, h.closing,
      h.resending, h.lastPrepare, h.required, fun k x hx => ?_, h.quorum, h.table⟩
    rcases QuorumSet.mem_messages_add hx with ⟨hk, rfl⟩ | hx
    · obtain rfl : k = m.opnum := congrArg Prod.snd hk
      exact ⟨hm.2.1, hm.2.2.1, hm.2.2.2⟩
    · exact h.acks k x hx
  refine ⟨fun msgs hmsgs => ?_, fun _ => ⟨hs, List.prefix_refl _, Nat.le_refl _, by simp⟩⟩
  obtain ⟨rfl, hsize⟩ := QuorumSet.checkForQuorum_eq_some.mp hmsgs
  have hopnum : m.opnum ≤ s.lastOp := h.lastOp ▸ hm.2.2.2.trans (hheld _ hm.2.2.1)
  have hothers : HeldByOthers c held m.opnum := by
    refine ⟨((s.prepareOKQuorum.add (m.view, m.opnum) m.replicaidx m).messages
      (m.view, m.opnum)).keys, ?_, fun r hr => ?_⟩
    · rw [StdMap.card_keys]
      exact hs.required.symm.trans_le hsize
    · obtain ⟨b, hb⟩ := StdMap.mem_keys.mp hr
      exact hs.acks m.opnum (r, b) (hm.1 ▸ hb)
  refine (sat_commitUpTo_leads hs hopnum hothers).mono ?_ (fun _ _ h => h)
  intro _ t o ht
  have ht' : LeadsOn c held s t o := ⟨ht.good, ht.log, ht.committed, ht.sent⟩
  have hg := ht.good
  have hcommit : ∀ b, LeadsOn c held s { t.start .nullCommit with batchComplete := b }
      (o ++ [.toAll (.commit { view := t.view, opnum := t.lastCommitted })]) := by
    intro b
    refine ht'.trans ⟨⟨?_, hg.log, hg.batch, hg.closing, hg.resending, hg.lastPrepare, hg.required,
      hg.acks, hg.quorum, hg.table⟩, List.prefix_refl _, Nat.le_refl _, ?_⟩
    · exact hg.toGoodReplica.congr rfl rfl rfl rfl rfl rfl rfl
    · simp only [List.mem_singleton, forall_eq]
      exact hg.view
  have hcommit' : LeadsOn c held s (t.start .nullCommit)
      (o ++ [.toAll (.commit { view := t.view, opnum := t.lastCommitted })]) :=
    hcommit t.batchComplete
  refine ⟨fun _ => ht', fun _ => ⟨fun _ => ⟨fun hb => ?_, fun _ => hcommit true⟩,
    fun _ => hcommit'⟩⟩
  refine (sat_closeBatch_leads hE (hcommit true).good hb).mono ?_ (fun _ _ h => h)
  intro _ t₁ o₁ ht₁
  have hall := (hcommit true).trans ht₁
  rwa [List.append_assoc] at hall

/-- What makes a request fresh. -/
theorem lt_of_fresh {req : Request} (h : checkDuplicate s req = .fresh) {e : ClientTableEntry}
    (he : s.clientTable req.clientid = some e) : e.lastReqId < req.clientreqid := by
  unfold checkDuplicate at h
  simp only [he] at h
  split_ifs at h with h₁ h₂ h₃
  omega

/-- A fresh request is later than all those of its client that are logged. -/
theorem GoodLeader.lt_of_fresh {req : Request} (h : GoodLeader c held s)
    (hf : checkDuplicate s req = .fresh) {x : Nat × Request} (hx : x ∈ s.log.contents)
    (hc : x.2.clientid = req.clientid) : x.2.clientreqid < req.clientreqid := by
  obtain ⟨hle, hsome⟩ := h.table x hx
  rw [hc] at hle hsome
  obtain ⟨e, he⟩ := Option.ne_none_iff_exists'.mp hsome
  have hlt := SingleView.lt_of_fresh hf he
  rw [Replica.clientEntry, he] at hle
  exact lt_of_le_of_lt hle hlt

theorem lastReqId_le_of_fresh {req : Request} (h : checkDuplicate s req = .fresh) :
    (s.clientEntry req.clientid).lastReqId ≤ req.clientreqid := by
  unfold Replica.clientEntry
  cases ht : s.clientTable req.clientid with
  | none => exact Nat.zero_le _
  | some e => exact (lt_of_fresh h ht).le

/-- Recording a fresh request keeps the table above the log. -/
theorem GoodLeader.table_recordRequest {req : Request} (h : GoodLeader c held s)
    (hf : checkDuplicate s req = .fresh) {x : Nat × Request} (hx : x ∈ s.log.contents) :
    x.2.clientreqid ≤ ((recordRequest s req).clientEntry x.2.clientid).lastReqId ∧
      (recordRequest s req).clientTable x.2.clientid ≠ none := by
  obtain ⟨hle, hsome⟩ := h.table x hx
  rw [lastReqId_recordRequest]
  by_cases hc : x.2.clientid = req.clientid
  · rw [if_pos hc]
    exact ⟨(h.lt_of_fresh hf hx hc).le, by simp [recordRequest, Replica.setClientEntry, hc]⟩
  · rw [if_neg hc]
    exact ⟨hle, by simpa [recordRequest, Replica.setClientEntry, hc] using hsome⟩

/-- The leader logs a fresh request. -/
theorem LeadsOn.logged {req request : Request} {lg : Log} (h : GoodLeader c held s)
    (hf : checkDuplicate s req = .fresh)
    (happ : s.log.append { viewstamp := { view := s.view, opnum := s.lastOp + 1 }
                           state := .prepared, request := request } = some lg)
    (hid : request.clientid = req.clientid) (hreq : request.clientreqid = req.clientreqid)
    {up : List Upcall} (hup : executions up = executions s.upcalls) :
    LeadsOn c held s { recordRequest s req with upcalls := up, lastOp := s.lastOp + 1, log := lg }
      [] := by
  have hcontents : lg.contents = s.log.contents ++ [(0, request)] := by
    rw [Log.contents_append happ, h.view]
    rfl
  have hpre : s.log.contents <+: lg.contents := hcontents ▸ List.prefix_append ..
  refine ⟨⟨h.toGoodReplica.append happ rfl rfl rfl rfl rfl rfl hup, ?_, ?_, ?_, h.resending, ?_,
    h.required, h.acks, h.quorum, ?_⟩, hpre, Nat.le_refl _, by simp⟩
  · simp only [hcontents]
    refine ⟨fun x hx => ?_, List.pairwise_append.mpr ⟨h.log.increasing, by simp, ?_⟩⟩
    · rcases List.mem_append.mp hx with hx | hx
      · exact h.log.view x hx
      · rw [List.mem_singleton.mp hx]
    · intro x hx y hy hc
      obtain rfl := List.mem_singleton.mp hy
      exact hreq ▸ h.lt_of_fresh hf hx (hc.trans hid)
  · exact h.batch.trans (Nat.le_succ _)
  · exact fun hact => (h.closing hact).trans (Nat.lt_succ_self _)
  · exact fun p hp => (h.lastPrepare p hp).mono hpre
  · intro x hx
    rw [show ({ recordRequest s req with upcalls := up, lastOp := s.lastOp + 1, log := lg } :
      Replica).log.contents = _ from hcontents] at hx
    rcases List.mem_append.mp hx with hx | hx
    · exact h.table_recordRequest hf hx
    · obtain rfl := List.mem_singleton.mp hx
      show request.clientreqid ≤ ((recordRequest s req).clientEntry request.clientid).lastReqId ∧ _
      rw [lastReqId_recordRequest, if_pos hid, hreq]
      exact ⟨Nat.le_refl _, by simp [recordRequest, Replica.setClientEntry, hid]⟩

/-- `HandleRequest` after a fresh request has been recorded. -/
theorem sat_processRequest_leads {remote : Addr} {req : Request} (hE : E.replicaIdx = 0)
    (h : GoodLeader c held s) (hf : checkDuplicate s req = .fresh) :
    Sat (processRequest E remote req) (recordRequest s req)
      (fun _ s' o => LeadsOn c held s s' o) (fun _ _ => False) := by
  have hlen := h.lastOp
  simp only [processRequest, sat_bind, sat_get, sat_ite, sat_ofOption, sat_modify, sat_emit,
    List.nil_append, List.append_nil]
  refine ⟨fun _ => ?_, fun _ => ⟨fun lg happ => ?_, fun hnone => ?_⟩⟩
  · refine ⟨⟨?_, h.log, h.batch, h.closing, h.resending, h.lastPrepare, h.required, h.acks,
      h.quorum, fun x hx => ?_⟩, List.prefix_refl _, Nat.le_refl _, by simp [LeaderSent]⟩
    · refine h.toGoodReplica.congr rfl rfl rfl rfl rfl rfl ?_
      show executions (s.upcalls ++ [_]) = _
      rw [executions_append]
      exact List.append_nil _
    · obtain ⟨hle, hsome⟩ := h.table_recordRequest hf hx
      by_cases hc : x.2.clientid = req.clientid
      · simpa [Replica.setClientEntry, Replica.clientEntry, hc] using hle
      · exact ⟨by simpa [Replica.setClientEntry, Replica.clientEntry, hc] using hle,
          by simpa [Replica.setClientEntry, hc] using hsome⟩
  · have hup : executions (s.upcalls ++ [.leader s.lastCommitted req.op]) = executions s.upcalls := by
      rw [executions_append]
      exact List.append_nil _
    have ht := LeadsOn.logged h hf happ rfl rfl hup
    have hlt : s.lastBatchEnd < s.lastOp + 1 := Nat.lt_succ_of_le h.batch
    have hstart : ∀ {t o}, LeadsOn c held s t o → LeadsOn c held s (t.start .nullCommit) o := by
      intro t o ht
      have hg := ht.good
      exact ⟨⟨hg.toGoodReplica.congr rfl rfl rfl rfl rfl rfl rfl, hg.log, hg.batch, hg.closing,
        hg.resending, hg.lastPrepare, hg.required, hg.acks, hg.quorum, hg.table⟩, ht.log,
        ht.committed, ht.sent⟩
    have hg := ht.good
    refine ⟨fun _ => ?_, fun _ => hstart ?_⟩
    · refine (sat_closeBatch_leads hE hg hlt).mono ?_ (fun _ _ h => h)
      exact fun _ t o ht' => hstart (ht.trans ht')
    · exact ⟨⟨hg.toGoodReplica.congr rfl rfl rfl rfl rfl rfl rfl, hg.log, hg.batch, fun _ => hlt,
        hg.resending, hg.lastPrepare, hg.required, hg.acks, hg.quorum, hg.table⟩, ht.log,
        ht.committed, ht.sent⟩
  · exact Log.append_eq_none.mp hnone (congrArg (· + 1) hlen)

theorem sat_handleRequest_leads {remote : Addr} {req : Request} (hE : E.replicaIdx = 0)
    (h : GoodLeader c held s) :
    Sat (handleRequest E remote req) s (fun _ s' o => LeadsOn c held s s' o) (fun _ _ => False) := by
  have hlead : amLeader E s := h.amLeader_iff.mpr hE
  have hstatus : ¬ s.status ≠ .normal := not_not.mpr h.status
  have hs : ∀ a, GoodLeader c held { s with clientAddresses := a } := fun a =>
    ⟨h.toGoodReplica.congr rfl rfl rfl rfl rfl rfl rfl, h.log, h.batch, h.closing, h.resending,
      h.lastPrepare, h.required, h.acks, h.quorum, h.table⟩
  have hsame : ∀ a o, (∀ x ∈ o, x.isReply) → LeadsOn c held s { s with clientAddresses := a } o := by
    refine fun a o ho => ⟨hs a, List.prefix_refl _, Nat.le_refl _, fun x hx => ?_⟩
    cases x <;> first | trivial | exact (ho _ hx).elim
  simp only [handleRequest, sat_bind, sat_get, sat_ite, sat_pure, sat_modify, List.nil_append,
    hstatus, hlead, not_true_eq_false, not_false_eq_true, false_implies, true_implies, true_and]
  cases hd : checkDuplicate s req with
  | stale => exact hsame _ _ (by simp)
  | unreplied => exact hsame _ _ (by simp)
  | replied reply =>
    simp only [sat_whenSome, sat_emit]
    exact ⟨fun _ _ => hsame _ _ (by simp [Output.isReply]), fun _ => hsame _ _ (by simp)⟩
  | fresh =>
    simp only [sat_bind, sat_updateClientTable, List.nil_append]
    refine ⟨fun _ => ?_, fun hno => hno (lastReqId_le_of_fresh hd)⟩
    refine (sat_processRequest_leads hE (hs _) ?_).mono ?_ (fun _ _ h => h)
    · exact hd
    · exact fun _ _ _ h' => ⟨h'.good, h'.log, h'.committed, h'.sent⟩

theorem sat_timeout_leads {t : Timer} (hE : E.replicaIdx = 0) (ht : s.active t = true)
    (hv : t ≠ .viewChange) (h : GoodLeader c held s) :
    Sat (timeout E t) s (fun _ s' o => LeadsOn c held s s' o) (fun _ _ => False) := by
  have hlead : amLeader E s := h.amLeader_iff.mpr hE
  cases t with
  | viewChange => exact absurd rfl hv
  | nullCommit =>
    simp only [timeout, sendNullCommit, sat_bind, sat_get, sat_assert, sat_emit, List.nil_append,
      hlead, true_implies, not_true_eq_false, false_implies, and_true]
    exact ⟨h, List.prefix_refl _, Nat.le_refl _, by simpa [LeaderSent] using h.view⟩
  | stateTransfer =>
    exact ⟨⟨h.toGoodReplica.congr rfl rfl rfl rfl rfl rfl rfl, h.log, h.batch, h.closing,
      h.resending, h.lastPrepare, h.required, h.acks, h.quorum, h.table⟩, List.prefix_refl _,
      Nat.le_refl _, by simp⟩
  | resendPrepare =>
    obtain ⟨p, hp⟩ := Option.ne_none_iff_exists'.mp (h.resending ht)
    simp only [timeout, resendPrepare, sat_bind, sat_get, sat_assert, sat_ite, sat_pure, sat_emit,
      List.nil_append, hlead, hp, true_implies, not_true_eq_false, false_implies, and_true]
    exact ⟨fun _ => .refl h, fun _ => ⟨h, List.prefix_refl _, Nat.le_refl _,
      by simpa [LeaderSent] using h.lastPrepare p hp⟩⟩
  | closeBatch => exact sat_closeBatch_leads hE h (h.closing ht)
  | recovery =>
    rw [h.recovery] at ht
    cases ht

theorem sat_timeout_follows {t : Timer} (ht : s.active t = true) (hv : t ≠ .viewChange)
    (h : GoodFollower l s) :
    Sat (timeout E t) s (fun _ s' o => Follows E l s s' o) (fun _ _ => False) := by
  obtain rfl := (h.idle t ht).resolve_left hv
  exact ⟨⟨h.toGoodReplica.congr rfl rfl rfl rfl rfl rfl rfl, h.log, h.idle, h.pending, h.table⟩,
    Nat.le_refl _, Nat.le_refl _, by simp⟩

/-! ### Steps of the group -/

/-- Replica `r` is now in state `s`. -/
def Snapshot.update (g : Snapshot) (r : Nat) (s : Replica) : Snapshot where
  log := if r = 0 then s.log.contents else g.log
  held i := if i = r then s.log.entries.length else g.held i
  committed i := if i = r then s.lastCommitted else g.committed i

def snapshot (s : Sys) : Snapshot where
  log := (s.replica 0).log.contents
  held r := (s.replica r).log.entries.length
  committed r := (s.replica r).lastCommitted

theorem snapshot_after (G : Group) (s : Sys) (r : Nat) (x : Option Unit × Replica × List Output) :
    snapshot (s.after G r x) = (snapshot s).update r x.2.1 := by
  unfold snapshot Sys.after Snapshot.update
  simp only [Snapshot.mk.injEq, eq_comm (a := 0)]
  exact ⟨apply_ite (fun t : Replica => t.log.contents) .., funext fun i => apply_ite
    (fun t : Replica => t.log.entries.length) .., funext fun i => apply_ite Replica.lastCommitted ..⟩

/-- The invariant of a group in view 0. -/
structure GoodGroup (G : Group) (s : Sys) : Prop where
  leader : GoodLeader G.config (snapshot s).held (s.replica 0)
  followers : ∀ r, r ≠ 0 → r < G.config.n → GoodFollower (s.replica 0).log.contents (s.replica r)
  net : ∀ p ∈ s.net, GoodPacket G.config.n (snapshot s) p
  running : ∀ r, s.stopped r = false

/-- Replica `r` has come from `s` to `s'`, and what it sent is true of the group now. -/
structure Advances (G : Group) (g : Snapshot) (r : Nat) (s s' : Replica) (o : List Output) :
    Prop where
  leader : r = 0 → GoodLeader G.config g.held s' ∧ s.log.contents <+: s'.log.contents
  follower : r ≠ 0 → GoodFollower g.log s'
  held : s.log.entries.length ≤ s'.log.entries.length
  committed : s.lastCommitted ≤ s'.lastCommitted
  sent : ∀ x ∈ o, ∀ p ∈ packets G.config.n r x, GoodPacket G.config.n (g.update r s') p

theorem Follows.advances {G : Group} {g : Snapshot} {r : Nat} {o : List Output} (hr : r ≠ 0)
    (hrn : r < G.config.n) (h : Follows (G.env r) g.log s s' o) : Advances G g r s s' o := by
  refine ⟨fun h0 => absurd h0 hr, fun _ => h.good, h.held, h.committed, fun x hx p hp => ?_⟩
  have hsent := h.sent x hx
  have hheld : (g.update r s').held r = s'.log.entries.length := if_pos rfl
  have hcommitted : (g.update r s').committed r = s'.lastCommitted := if_pos rfl
  unfold Sent at hsent
  split at hsent
  · obtain rfl := List.mem_singleton.mp hp
    obtain ⟨hv, hi, hk⟩ := hsent
    have hi' : _ = r := hi
    exact ⟨hv, by rw [hi']; exact hr, by rw [hi']; exact hrn, by rw [hi', hheld]; exact hk⟩
  · obtain ⟨i, _, rfl⟩ := List.mem_map.mp hp
    exact ⟨r, rfl, hr, hsent.1, by rw [hcommitted]; exact hsent.2⟩
  · simp [packets] at hp
  · exact hsent.elim

theorem LeadsOn.advances {G : Group} {g : Snapshot} {o : List Output}
    (h : LeadsOn G.config g.held s s' o) : Advances G g 0 s s' o := by
  refine ⟨fun _ => ⟨h.good, h.log⟩, fun h0 => absurd rfl h0, ?_, h.committed, fun x hx p hp => ?_⟩
  · rw [← Log.length_contents, ← Log.length_contents]
    exact h.log.length_le
  · have hsent := h.sent x hx
    have hlog : (g.update 0 s').log = s'.log.contents := rfl
    unfold LeaderSent at hsent
    split at hsent
    · obtain ⟨i, hi, rfl⟩ := List.mem_map.mp hp
      exact ⟨by simpa using (List.mem_filter.mp hi).2, hlog ▸ hsent⟩
    · obtain ⟨i, hi, rfl⟩ := List.mem_map.mp hp
      exact ⟨by simpa using (List.mem_filter.mp hi).2, hsent⟩
    · simp [packets] at hp
    · exact hsent.elim

/-- The answer to a state transfer request of replica `i`. -/
theorem advances_transfer {G : Group} {g : Snapshot} {r i : Nat} {m : RequestStateTransferMessage}
    {m' : StateTransferMessage} (hi : i ≠ 0) (hm : m.opnum ≤ g.committed i)
    (ht : GoodTransfer (g.update r s).log m.opnum m' m.opnum s.log.entries.length)
    (hc : g.committed r ≤ s.lastCommitted) (hl : r = 0 → GoodLeader G.config g.held s)
    (hf : r ≠ 0 → GoodFollower g.log s) :
    Advances G g r s s [.toAddr (.replica i) (.stateTransfer m')] := by
  refine ⟨fun h0 => ⟨hl h0, List.prefix_refl _⟩, hf, Nat.le_refl _, Nat.le_refl _, ?_⟩
  intro x hx p hp
  obtain rfl := List.mem_singleton.mp hx
  obtain rfl := List.mem_singleton.mp hp
  refine ⟨hi, _, _, ht.mono (List.prefix_refl _) (hm.trans ?_)⟩
  simp only [Snapshot.update]
  split_ifs with h
  · exact h ▸ hc
  · exact Nat.le_refl _

variable {G : Group}

/-- A message reaches a replica other than the leader. -/
theorem sat_receiveMessage_follower {g : Snapshot} {r : Nat} {wild : Option Nat} {remote : Addr}
    {m : ToReplicaMessage} (hr : r ≠ 0) (hrn : r < G.config.n) (hl : GoodLog g.log)
    (h : GoodFollower g.log s) (hc : g.committed r = s.lastCommitted)
    (hm : (∃ q, m = .request q) ∨ (∃ op, m = .unloggedRequest op) ∨
      GoodPacket G.config.n g ⟨remote, r, m⟩) :
    Sat (receiveMessage (G.env r) wild remote m) s
      (fun _ s' o => Advances G g r s s' o) (fun _ _ => False) := by
  have hno : ¬ amLeader (G.env r) s := fun hlead => hr (h.amLeader_iff.mp hlead)
  have hstatus : ¬ s.status ≠ .normal := not_not.mpr h.status
  have hsame : Advances G g r s s [] := (Follows.refl h).advances hr hrn
  have hf : ∀ {x : VRHandler Unit}, Sat x s (fun _ s' o => Follows (G.env r) g.log s s' o)
      (fun _ _ => False) → Sat x s (fun _ s' o => Advances G g r s s' o) (fun _ _ => False) :=
    fun hx => hx.mono (fun _ _ _ h' => h'.advances hr hrn) (fun _ _ h => h)
  rcases hm with ⟨q, rfl⟩ | ⟨op, rfl⟩ | hm
  · simp only [receiveMessage, handleRequest, sat_bind, sat_get, sat_ite, sat_pure, sat_modify, List.nil_append,
      hstatus, hno, not_false_eq_true, false_implies, true_implies, not_true_eq_false, true_and,
      and_true]
    exact hsame
  · refine hf ?_
    simp only [receiveMessage, handleUnloggedRequest, sat_bind, sat_get, sat_ite, sat_pure,
      sat_modify, sat_emit, List.nil_append, hstatus, not_false_eq_true, false_implies,
      true_implies, true_and]
    refine ⟨⟨h.toGoodReplica.congr rfl rfl rfl rfl rfl rfl ?_, h.log, h.idle, h.pending, h.table⟩,
      Nat.le_refl _, Nat.le_refl _, by simp [Sent]⟩
    exact (executions_append ..).trans (List.append_nil _)
  · unfold GoodPacket at hm
    cases m with
    | prepare m => exact hf (sat_handlePrepare_follows hr hl hm.2 h)
    | prepareOK m =>
      have hview : ¬ m.view > s.view := by
        rw [hm.1, h.view]
        exact Nat.lt_irrefl 0
      simp only [receiveMessage, handlePrepareOK, sat_bind, sat_get, sat_ite, sat_pure,
        List.nil_append, hstatus, hview, hno, not_false_eq_true, false_implies, true_implies,
        true_and]
      exact ⟨fun _ => hsame, fun _ => hsame⟩
    | commit m => exact hf (sat_handleCommit_follows hr hm.2 h)
    | requestStateTransfer m =>
      obtain ⟨i, hi, hi0, hv, hop⟩ := hm
      obtain rfl : remote = .replica i := hi
      refine (sat_handleRequestStateTransfer_good h.toGoodReplica h.log hv).mono ?_
        (fun _ _ h => h)
      rintro _ t o ⟨rfl, m', rfl, ht⟩
      exact advances_transfer hi0 hop (by rwa [Snapshot.update, if_neg hr]) hc.le
        (fun h0 => absurd h0 hr) (fun _ => h)
    | stateTransfer m =>
      obtain ⟨_, a, b, ht⟩ := hm
      exact hf (sat_handleStateTransfer_follows hr hl (hc ▸ ht) h)
    | _ => exact hm.elim

/-- A message reaches the leader. -/
theorem sat_receiveMessage_leader {g : Snapshot} {wild : Option Nat} {remote : Addr}
    {m : ToReplicaMessage} (hlog : g.log = s.log.contents) (hc : g.committed 0 = s.lastCommitted)
    (hheld : ∀ r < G.config.n, g.held r ≤ s.log.entries.length) (h : GoodLeader G.config g.held s)
    (hm : (∃ q, m = .request q) ∨ (∃ op, m = .unloggedRequest op) ∨
      GoodPacket G.config.n g ⟨remote, 0, m⟩) :
    Sat (receiveMessage (G.env 0) wild remote m) s
      (fun _ s' o => Advances G g 0 s s' o) (fun _ _ => False) := by
  have hstatus : ¬ s.status ≠ .normal := not_not.mpr h.status
  have hf : ∀ {x : VRHandler Unit}, Sat x s (fun _ s' o => LeadsOn G.config g.held s s' o)
      (fun _ _ => False) → Sat x s (fun _ s' o => Advances G g 0 s s' o) (fun _ _ => False) :=
    fun hx => hx.mono (fun _ _ _ h' => h'.advances) (fun _ _ h => h)
  rcases hm with ⟨q, rfl⟩ | ⟨op, rfl⟩ | hm
  · exact hf (sat_handleRequest_leads rfl h)
  · refine hf ?_
    simp only [receiveMessage, handleUnloggedRequest, sat_bind, sat_get, sat_ite, sat_pure,
      sat_modify, sat_emit, List.nil_append, hstatus, not_false_eq_true, false_implies,
      true_implies, true_and]
    refine ⟨⟨h.toGoodReplica.congr rfl rfl rfl rfl rfl rfl ?_, h.log, h.batch, h.closing,
      h.resending, h.lastPrepare, h.required, h.acks, h.quorum, h.table⟩, List.prefix_refl _,
      Nat.le_refl _, by simp [LeaderSent]⟩
    exact (executions_append ..).trans (List.append_nil _)
  · unfold GoodPacket at hm
    cases m with
    | prepare m => exact absurd rfl hm.1
    | prepareOK m => exact hf (sat_handlePrepareOK_leads rfl hm hheld h)
    | commit m => exact absurd rfl hm.1
    | requestStateTransfer m =>
      obtain ⟨i, hi, hi0, hv, hop⟩ := hm
      obtain rfl : remote = .replica i := hi
      refine (sat_handleRequestStateTransfer_good h.toGoodReplica (List.prefix_refl _) hv).mono ?_
        (fun _ _ h => h)
      rintro _ t o ⟨rfl, m', rfl, ht⟩
      exact advances_transfer hi0 hop ht hc.le (fun _ => h) (fun h0 => absurd rfl h0)
    | stateTransfer m => exact absurd rfl hm.1
    | _ => exact hm.elim

/-- The view change timers are not fired, and no replica restarts. -/
def InView0 : Event → Prop
  | .timeout _ t => t ≠ .viewChange
  | .restart .. => False
  | _ => True

instance (e : Event) : Decidable (InView0 e) := by
  induction e using Event.casesOn <;> unfold InView0 <;> infer_instance

theorem GoodGroup.held_le {s : Sys} (h : GoodGroup G s) : ∀ r < G.config.n,
    (snapshot s).held r ≤ (s.replica 0).log.entries.length := by
  intro r hrn
  by_cases hr : r = 0
  · exact hr ▸ Nat.le_refl _
  · have := (h.followers r hr hrn).log.length_le
    rwa [Log.length_contents, Log.length_contents] at this

/-- The handler of an event, run by a replica of a good group. -/
theorem sat_handler_advances {s : Sys} {e : Event} {r : Nat} {m : VRHandler Unit} {st : Replica}
    (h : GoodGroup G s) (he : InView0 e) (hh : e.handler G s = some (r, m, st))
    (hrn : r < G.config.n) :
    st = s.replica r ∧ Sat m st (fun _ s' o => Advances G (snapshot s) r (s.replica r) s' o)
      (fun _ _ => False) := by
  rcases Event.of_handler hh with ⟨wild, remote, msg, hmsg, rfl, rfl⟩ | ⟨t, rfl, ht, rfl, rfl⟩ |
    ⟨nonce, rfl, rfl, rfl⟩
  · have hm : (∃ q, msg = .request q) ∨ (∃ op, msg = .unloggedRequest op) ∨
        GoodPacket G.config.n (snapshot s) ⟨remote, r, msg⟩ := by
      cases hmsg with
      | request => exact Or.inl ⟨_, rfl⟩
      | unlogged => exact Or.inr (Or.inl ⟨_, rfl⟩)
      | deliver hp => exact Or.inr (Or.inr (h.net _ (List.mem_of_getElem? hp)))
    refine ⟨rfl, ?_⟩
    by_cases hr : r = 0
    · subst hr
      exact sat_receiveMessage_leader rfl rfl h.held_le h.leader hm
    · exact sat_receiveMessage_follower hr hrn h.leader.log (h.followers r hr hrn) rfl hm
  · refine ⟨rfl, ?_⟩
    by_cases hr : r = 0
    · subst hr
      exact (sat_timeout_leads rfl ht he h.leader).mono (fun _ _ _ h' => h'.advances)
        (fun _ _ h => h)
    · exact (sat_timeout_follows ht he (h.followers r hr hrn)).mono
        (fun _ _ _ h' => h'.advances hr hrn) (fun _ _ h => h)
  · exact he.elim

theorem GoodLeader.mono {held' : Nat → Nat} (h : GoodLeader c held s)
    (hh : ∀ r, r ≠ 0 → held r ≤ held' r) : GoodLeader c held' s := by
  refine ⟨h.toGoodReplica, h.log, h.batch, h.closing, h.resending, h.lastPrepare, h.required,
    fun k x hx => ?_, ?_, h.table⟩
  · obtain ⟨h0, hn, hk⟩ := h.acks k x hx
    exact ⟨h0, hn, hk.trans (hh _ h0)⟩
  · obtain ⟨Q, hQ, hmem⟩ := h.quorum
    exact ⟨Q, hQ, fun r hr => ⟨(hmem r hr).1, (hmem r hr).2.1,
      (hmem r hr).2.2.trans (hh r (hmem r hr).1)⟩⟩

theorem GoodFollower.mono {l' : List (Nat × Request)} (h : GoodFollower l s) (hl : l <+: l') :
    GoodFollower l' s :=
  ⟨h.toGoodReplica, h.log.trans hl, h.idle, fun x hx => (h.pending x hx).mono hl, h.table⟩

/-- A step in view 0 keeps the group good. -/
theorem goodGroup_step {s s' : Sys} {e : Event} (h : GoodGroup G s) (he : InView0 e)
    (hstep : s.step G e = some s') : GoodGroup G s' := by
  obtain ⟨r, m, st, hh, hrn, _, rfl⟩ := Sys.step_eq_some hstep
  obtain ⟨rfl, hsat⟩ := sat_handler_advances h he hh hrn
  rcases hsat.cases with ⟨_, t, o, hm, hadv⟩ | ⟨_, _, _, hno⟩
  swap
  · exact hno.elim
  have hgrows : Grows (snapshot s) ((snapshot s).update r t) := by
    refine ⟨?_, fun i => ?_, fun i => ?_⟩ <;> simp only [Snapshot.update] <;> split_ifs with hi
    · subst hi
      exact (hadv.leader rfl).2
    · exact List.prefix_refl _
    · exact hi ▸ hadv.held
    · exact Nat.le_refl _
    · exact hi ▸ hadv.committed
    · exact Nat.le_refl _
  rw [hm]
  have hsnap := snapshot_after G s r (some (), t, o)
  refine ⟨?_, fun i hi hin => ?_, fun p hp => ?_, fun i => ?_⟩
  · rw [hsnap]
    by_cases hr : r = 0
    · subst hr
      exact (hadv.leader rfl).1.mono fun i _ => hgrows.held i
    · have hsame : (s.after G r (some (), t, o)).replica 0 = s.replica 0 := if_neg (Ne.symm hr)
      rw [hsame]
      exact h.leader.mono fun i _ => hgrows.held i
  · have hlog : (snapshot s).log <+: ((s.after G r (some (), t, o)).replica 0).log.contents := by
      have := hgrows.log
      rwa [← hsnap] at this
    by_cases hir : i = r
    · subst hir
      have hsame : (s.after G i (some (), t, o)).replica i = t := if_pos rfl
      rw [hsame]
      exact (hadv.follower hi).mono hlog
    · have hsame : (s.after G r (some (), t, o)).replica i = s.replica i := if_neg hir
      rw [hsame]
      exact (h.followers i hi hin).mono hlog
  · rw [hsnap]
    rcases List.mem_append.mp hp with hp | hp
    · exact (h.net p hp).mono hgrows
    · obtain ⟨x, hx, hpx⟩ := List.mem_flatMap.mp hp
      exact hadv.sent x hx p hpx
  · simp only [Sys.after]
    split_ifs
    · rfl
    · exact h.running i

/-- A replica that has just been constructed. -/
theorem goodReplica_initial (r : Nat) : GoodReplica (Replica.initial (G.env r)) := by
  have hidle : (Replica.initial (G.env r)).active .recovery = false := by
    by_cases h : amLeader (G.env r) (Replica.construct (G.env r))
    · rw [Replica.initial_of_leader h]
      rfl
    · rw [Replica.initial_of_follower h]
      rfl
  rw [Replica.initial_eq]
  refine ⟨rfl, rfl, hidle, rfl, Nat.le_refl _, fun i e he => ?_, rfl⟩
  simp [Replica.construct, Log.empty] at he

theorem goodGroup_init (hG : G.config.Valid) : GoodGroup G (system G).init := by
  have hlead : amLeader (G.env 0) (Replica.construct (G.env 0)) := Nat.zero_mod _
  have hinit : (system G).init.replica 0 = (Replica.construct (G.env 0)).start .nullCommit :=
    Replica.initial_of_leader hlead
  have hheld : (snapshot (system G).init).held = fun _ => 0 := by
    funext r
    exact (goodReplica_initial r).lastOp.symm.trans (by rw [Replica.initial_eq]; rfl)
  refine ⟨?_, fun r hr hrn => ?_, fun p hp => by simp [system, Sys.initial] at hp, fun _ => rfl⟩
  · have hgood : GoodReplica ((system G).init.replica 0) := goodReplica_initial 0
    rw [hheld]
    rw [hinit] at hgood ⊢
    refine ⟨hgood, ⟨?_, ?_⟩, ?_, ?_, ?_, ?_, ?_, ?_, ?_, ?_⟩
    · exact fun x hx => by simp [Replica.construct, Replica.start, Log.contents, Log.empty] at hx
    · simp [Replica.construct, Replica.start, Log.contents, Log.empty]
    · exact Nat.le_refl 0
    · exact fun h => by simp [Replica.construct, Replica.start] at h
    · exact fun h => by simp [Replica.construct, Replica.start] at h
    · exact fun p h => by simp [Replica.construct, Replica.start] at h
    · show G.config.quorumSize - 1 = G.config.f
      rfl
    · exact fun k x hx => by
        simp [Replica.construct, Replica.start, QuorumSet.new, StdMap.empty] at hx
    · refine ⟨(Finset.range G.config.n).erase 0, ?_, fun r hr => ?_⟩
      · have hpos : 0 < G.config.n := by
          rw [hG]
          omega
        rw [Finset.card_erase_of_mem (Finset.mem_range.mpr hpos), Finset.card_range, hG]
        omega
      · obtain ⟨h0, hr⟩ := Finset.mem_erase.mp hr
        exact ⟨h0, Finset.mem_range.mp hr, Nat.zero_le _⟩
    · exact fun x hx => by simp [Replica.construct, Replica.start, Log.contents, Log.empty] at hx
  · have hno : ¬ amLeader (G.env r) (Replica.construct (G.env r)) := by
      show ¬ 0 % G.config.n = r
      rw [Nat.zero_mod]
      exact Ne.symm hr
    have hinit : (system G).init.replica r = (Replica.construct (G.env r)).start .viewChange :=
      Replica.initial_of_follower hno
    have hgood : GoodReplica ((system G).init.replica r) := goodReplica_initial r
    rw [hinit] at hgood ⊢
    refine ⟨hgood, List.nil_prefix, fun t ht => ?_, fun x hx => ?_, fun c => Or.inl rfl⟩
    · by_cases hv : t = .viewChange
      · exact Or.inl hv
      · exact Or.inr (by simpa [Replica.construct, Replica.start, hv] using ht)
    · simp [Replica.construct, Replica.start] at hx

/-- What holds in view 0. -/
structure SafeView (G : Group) (s : Sys) : Prop where
  /-- No assertion has failed. -/
  running : ∀ r, s.stopped r = false
  /-- Every log is a prefix of the leader's. -/
  logs : ∀ r < G.config.n, (s.replica r).log.contents <+: (s.replica 0).log.contents
  /-- What the leader has executed is held by a quorum. -/
  quorum : ∀ k req, (k, req) ∈ (s.replica 0).executed → ∃ Q : Finset Nat,
    G.config.quorumSize ≤ Q.card ∧ 0 ∈ Q ∧ ∀ r ∈ Q, r < G.config.n ∧
      k ≤ (s.replica r).log.entries.length ∧
      (s.replica r).log.contents.take k = (s.replica 0).log.contents.take k
  /-- Every replica executes in the order of the opnums. -/
  ordered : ∀ r < G.config.n, (s.replica r).executed.map Prod.fst =
    List.range' 1 (s.replica r).executed.length
  /-- No two replicas execute different requests at one opnum. -/
  agreement : ∀ r < G.config.n, ∀ r' < G.config.n, ∀ k req req',
    (k, req) ∈ (s.replica r).executed → (k, req') ∈ (s.replica r').executed → req = req'

theorem GoodGroup.log_prefix {s : Sys} (h : GoodGroup G s) {r : Nat} (hr : r < G.config.n) :
    (s.replica r).log.contents <+: (s.replica 0).log.contents := by
  by_cases h0 : r = 0
  · exact h0 ▸ List.prefix_refl _
  · exact (h.followers r h0 hr).log

theorem GoodGroup.good {s : Sys} (h : GoodGroup G s) {r : Nat} (hr : r < G.config.n) :
    GoodReplica (s.replica r) := by
  by_cases h0 : r = 0
  · exact h0 ▸ h.leader.toGoodReplica
  · exact (h.followers r h0 hr).toGoodReplica

/-- The leader and the `f` others that hold what it has committed. -/
theorem GoodGroup.quorum {s : Sys} (hG : G.config.Valid) (h : GoodGroup G s) {k : Nat}
    (hk : k ≤ (s.replica 0).lastCommitted) : ∃ Q : Finset Nat,
      G.config.quorumSize ≤ Q.card ∧ 0 ∈ Q ∧ ∀ r ∈ Q, r < G.config.n ∧
        k ≤ (s.replica r).log.entries.length ∧
        (s.replica r).log.contents.take k = (s.replica 0).log.contents.take k := by
  obtain ⟨Q, hQ, hmem⟩ := h.leader.quorum
  have h0 : 0 ∉ Q := fun h0 => (hmem 0 h0).1 rfl
  have hlen : k ≤ (s.replica 0).log.entries.length := by
    have h₁ := h.leader.committed
    have h₂ := h.leader.lastOp
    omega
  refine ⟨insert 0 Q, ?_, Finset.mem_insert_self .., fun r hr => ?_⟩
  · rw [Finset.card_insert_of_notMem h0]
    exact Nat.succ_le_succ hQ
  · rcases Finset.mem_insert.mp hr with rfl | hr
    · exact ⟨hG.leader_lt 0, hlen, rfl⟩
    · obtain ⟨_, hrn, hheld⟩ := hmem r hr
      have hk' : k ≤ (s.replica r).log.entries.length := hk.trans hheld
      obtain ⟨t, ht⟩ := h.log_prefix hrn
      rw [← ht, List.take_append_of_le_length (by rwa [Log.length_contents])]
      exact ⟨hrn, hk', rfl⟩

/-- In view 0 the group is safe. -/
theorem single_view_safe (hG : G.config.Valid) {past : List Sys} {s : Sys}
    (h : Run (system G) (fun _ => InView0) past s) : SafeView G s := by
  have hg : GoodGroup G s := h.invariant (I := fun _ s => GoodGroup G s) (goodGroup_init hG)
    fun _ _ _ _ _ hs hc hst => goodGroup_step hs hc hst
  refine ⟨hg.running, fun r hr => hg.log_prefix hr, fun k req hk => ?_,
    fun r hr => (hg.good hr).executed.ordered, fun r hr r' hr' k req req' hk hk' => ?_⟩
  · exact hg.quorum hG (hg.leader.executed.of_mem hk).2.1
  · obtain ⟨_, _, v, hv⟩ := (hg.good hr).executed.of_mem hk
    obtain ⟨_, _, v', hv'⟩ := (hg.good hr').executed.of_mem hk'
    have heq := (getElem?_mono (hg.log_prefix hr) hv).symm.trans
      (getElem?_mono (hg.log_prefix hr') hv')
    exact congrArg Prod.snd (Option.some.inj heq)

/-- A request that is prepared at replica 1, acknowledged and committed. -/
def committedRun : List Event :=
  [.request 0 7 { op := "a", clientid := 7, clientreqid := 1 }, .deliver 0 none, .deliver 2 none]

theorem single_view_safe_committed : ∃ s : Sys,
    (s.replica 0).executed = [(1, { op := "a", clientid := 7, clientreqid := 1 })] ∧
    SafeView threeReplicas s := by
  obtain ⟨past, s, h, hs⟩ := Run.exists_of_exec (system threeReplicas) (fun _ => InView0)
    committedRun (fun s => decide ((s.replica 0).executed =
      [(1, { op := "a", clientid := 7, clientreqid := 1 })])) (by decide +kernel)
  exact ⟨s, of_decide_eq_true hs, single_view_safe (by simp [threeReplicas, Configuration.Valid]) h⟩

end Dsnet.VR.SingleView
