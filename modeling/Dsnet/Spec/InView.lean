import Dsnet.Spec.EnterView
import Dsnet.Spec.Sync

/-! What committing on InView messages guarantees in Speculative Paxos. The leader counts the messages of
    its view and commits up to what the last of them names. After a FillLogGap a replica has a longer
    piece of the log than the others, and names more than they do: then the leader commits what too few
    replicas have. (`HandleSyncReply` counts the replies for each opnum apart.) And a replica that has
    committed the last opnum of a StartView message takes the message for what it has, as the check of
    that is under `PARANOID`. Apart from these two cases a quorum has what the leader commits
    (`inView_commits_held`). -/

namespace Dsnet.Spec
open Handler Net.GhostInvariant

/-- When the InView message completes a quorum, enough of the messages that are counted name as much as it
    does. -/
def QuorumReaches (c : Configuration) (s : Replica) (m : InViewMessage) : Prop :=
  let msgs := (s.inViewQuorum.add m.view m.replicaidx m).messages m.view
  c.quorumSize - 1 ≤ msgs.size →
    c.quorumSize - 1 ≤ msgs.toList.countP fun x => m.lastspeculative ≤ x.2.lastspeculative

instance (c : Configuration) (s : Replica) (m : InViewMessage) : Decidable (QuorumReaches c s m) :=
  inferInstanceAs (Decidable (_ → _))

instance (s : Replica) (view : Nat) : Decidable (Views.Heeds s view) := inferInstanceAs (Decidable (_ ∨ _))

instance (s : Replica) (m : StartViewMessage) : Decidable (Views.MeetsCommitted s m) :=
  inferInstanceAs (Decidable (∀ e ∈ m.entries.getLast?, _))

/-- The event does not make a leader commit more than a quorum of InView messages names, nor a replica
    join a view whose log differs where the message ends from what it has committed. -/
def InViewsReach (G : Group) (s : Sys) : Event → Prop
  | .deliver i =>
    match s.net[i]? with
    | some ⟨_, r, .inView m⟩ =>
      m.view = (s.replica r).view → (s.replica r).lastCommitted < m.lastspeculative →
        QuorumReaches G.config (s.replica r) m
    | some ⟨_, r, .startView m⟩ =>
      Views.Heeds (s.replica r) m.view → Views.MeetsCommitted (s.replica r) m
    | _ => True
  | _ => True

instance (G : Group) (s : Sys) : ∀ e, Decidable (InViewsReach G s e)
  | .client .. => inferInstanceAs (Decidable True)
  | .timeout .. => inferInstanceAs (Decidable True)
  | .deliver i =>
    match h : s.net[i]? with
    | some ⟨_, r, .inView m⟩ =>
      decidable_of_iff (m.view = (s.replica r).view → (s.replica r).lastCommitted < m.lastspeculative →
        QuorumReaches G.config (s.replica r) m) (by simp only [InViewsReach, h])
    | some ⟨_, r, .startView m⟩ =>
      decidable_of_iff (Views.Heeds (s.replica r) m.view → Views.MeetsCommitted (s.replica r) m)
        (by simp only [InViewsReach, h])
    | some ⟨_, _, .request _⟩ | some ⟨_, _, .unloggedRequest _⟩ | some ⟨_, _, .sync _⟩
    | some ⟨_, _, .syncReply _⟩ | some ⟨_, _, .requestViewChange _⟩
    | some ⟨_, _, .startViewChange _⟩ | some ⟨_, _, .doViewChange _⟩
    | some ⟨_, _, .fillLogGap _⟩ | some ⟨_, _, .fillDVCGap _⟩ | none =>
      .isTrue (by simp only [InViewsReach, h])

/-- No two of the inputs that were hashed for the logs in these states collide. -/
def NoneCollideIn (G : Group) (states : List Sys) : Prop :=
  ∀ t ∈ states, ∀ t' ∈ states, ∀ r < G.config.n, ∀ r' < G.config.n,
    NoCollision (nextHash G.sha1) hashKey emptyHash (stamps (t.replica r).log)
      (stamps (t'.replica r').log)

/-- The replica is in view `v`, and its log starts with these requests. -/
def HoldsIn (s : Replica) (v : Nat) (reqs : List Request) : Prop :=
  s.view = v ∧ s.status = .normal ∧ reqs <+: s.log.entries.map LogEntry.request

variable {G : Group} {past : List Sys} {s s' : Sys}

namespace Views

/-- A handler is run in a state that the ghost then records. -/
theorem invariant_record {g : Snapshot} (h : (invariant G).Holds G.config.n g s) :
    (invariant G).Holds G.config.n { g with past := s :: g.past } s ∧
      ∀ r < G.config.n, AllSeen G { g with past := s :: g.past } r := by
  have hseen : ∀ r < G.config.n, AllSeen G { g with past := s :: g.past } r := by
    intro r hr v l hl
    have hnode : Node G g r (s.replica r) := by
      cases hs : s.stopped r with
      | false => exact (h.running r hr hs).toNode
      | true => exact h.halted r hr hs
    obtain ⟨hsound, hs | hs⟩ := hnode.seen v l hl
    · obtain ⟨t, ht, hshow⟩ := hs
      exact ⟨hsound, t, List.mem_cons_of_mem _ ht, hshow⟩
    · exact ⟨hsound, s, List.mem_cons_self .., hs⟩
  refine ⟨⟨fun r hr hs => ?_, fun r hr _ => (hseen r hr).node, fun p hp => ?_⟩, hseen⟩
  · have hm : Member G g r (s.replica r) := h.running r hr hs
    exact { hm with seen := (hseen r hr).node.seen }
  · obtain ⟨src, dst, msg⟩ := p
    have hgood : GoodPacket G g ⟨src, dst, msg⟩ := h.packet _ hp
    cases msg with
    | startView m =>
      obtain ⟨hgenuine, hnum, hlast⟩ := hgood
      exact ⟨hgenuine, hnum, hlast⟩
    | _ => exact hgood

/-- A packet is handled. -/
theorem receiveMessage_meets {g : Snapshot} {r : Nat} {t : Replica} {p : Net.Packet ToReplicaMessage}
    (hr : r < G.config.n) (hseen : AllSeen G g r) (h : Member G g r t) (hp : GoodPacket G g p)
    (hmeets : ∀ m, p.msg = .startView m → Heeds t m.view → MeetsCommitted t m) :
    Meets G g r (receiveMessage (G.env r) p.src p.msg) t fun _ g' t => Member G g' r t := by
  obtain ⟨src, dst, msg⟩ := p
  cases msg with
  | request req => exact (h.tame (handleRequest_tame h.well hp)).mono fun _ _ _ _ ht => ht.1
  | unloggedRequest op => exact (h.tame (handleUnloggedRequest_tame h.well)).mono fun _ _ _ _ ht => ht.1
  | sync m => exact handleSync_meets hseen h m
  | syncReply m => exact handleSyncReply_meets hseen h m
  | requestViewChange view => exact handleRequestViewChange_meets hseen h view
  | startViewChange m => exact handleStartViewChange_meets hseen h m
  | doViewChange m => exact handleDoViewChange_meets hseen h hp
  | startView m => exact handleStartView_meets hr hseen h hp (hmeets m rfl)
  | inView m => exact handleInView_meets hseen h hp
  | fillLogGap m => exact handleFillLogGap_meets hseen h hp
  | fillDVCGap m => exact handleFillDVCGap_meets hseen h m

theorem timeout_meets {g : Snapshot} {r : Nat} {t : Replica} (hseen : AllSeen G g r)
    (h : Member G g r t) (k : Timer) :
    Meets G g r (timeout (G.env r) k) t fun _ g' t => Member G g' r t := by
  have hleave : Meets G g r (startViewChange (G.env r) (t.view + 1)) t
      fun _ g' t => Member G g' r t := by
    refine (startViewChange_meets hseen h (Nat.lt_succ_self _)).mono ?_
    rintro _ _ u _ ⟨rfl, hu, _⟩
    exact hu
  cases k with
  | sync => exact sendSync_meets hseen h
  | failedSync => exact spec_get_bind.mpr hleave
  | viewChange => exact spec_get_bind.mpr hleave

/-- A step keeps the invariant. -/
theorem invariant_step {g : Snapshot} {e : Event} (h : (invariant G).Holds G.config.n g s)
    (hreach : InViewsReach G s e) (hstep : s.step G.protocol e = some s') :
    ∃ g', g'.past = s :: g.past ∧ (invariant G).Holds G.config.n g' s' := by
  obtain ⟨r, m, hm, hr, hlive, rfl⟩ := Net.Sys.step_eq_some hstep
  obtain ⟨h, hseen⟩ := invariant_record h
  set g₁ : Snapshot := { g with past := s :: g.past }
  have hmem : Member G g₁ r (s.replica r) := h.running r hr hlive
  suffices hspec : Meets G g₁ r m (s.replica r) fun _ g' t => Member G g' r t by
    obtain ⟨g', hadv, h'⟩ := Net.GhostInvariant.step h hspec
    exact ⟨g', Advances.past hadv, h'⟩
  rcases Net.Event.of_handler hm with ⟨c, q, rfl, rfl⟩ | ⟨i, p, rfl, hp, rfl, rfl⟩ |
    ⟨t, rfl, _, rfl⟩
  · cases q with
    | request i =>
      exact (hmem.tame (handleRequest_tame hmem.well ⟨c, i, rfl⟩)).mono fun _ _ _ _ ht => ht.1
    | unlogged op =>
      exact (hmem.tame (handleUnloggedRequest_tame hmem.well)).mono fun _ _ _ _ ht => ht.1
    | viewChange view => exact handleRequestViewChange_meets (hseen r hr) hmem view
  · refine receiveMessage_meets hr (hseen _ hr) hmem (h.packet p (List.mem_of_getElem? hp)) ?_
    intro m hmsg
    obtain ⟨src, dst, msg⟩ := p
    obtain rfl : msg = .startView m := hmsg
    simpa only [InViewsReach, hp] using hreach
  · exact timeout_meets (hseen r hr) hmem t

/-- The group as it is constructed: everybody has joined view 0. -/
theorem invariant_initial (G : Group) :
    (invariant G).Holds G.config.n ⟨[], fun _ => [], fun _ _ _ => False⟩
      (Net.Sys.initial G.protocol) := by
  refine ⟨fun r _ _ => ?_, fun r _ h => (by cases h), fun p hp => (by cases hp)⟩
  exact
    { seen := fun v l hl => hl.elim
      well :=
        { full := rfl
          committed := Nat.le_refl _
          sound := sound_nil ..
          pending := fun x hx => by cases hx }
      joins := fun v l hl => hl.elim
      leads := fun _ _ => rfl
      unstarted := fun _ _ _ => rfl
      required := rfl
      inViews := fun v x hx => by cases hx
      dvcs := fun v x hx => by cases hx }

theorem invariant_run (h : Run (system G) (InViewsReach G) past s) :
    ∃ g : Snapshot, g.past = past ∧ (invariant G).Holds G.config.n g s := by
  refine h.invariant (I := fun past s => ∃ g : Snapshot, g.past = past ∧
    (invariant G).Holds G.config.n g s) ⟨_, rfl, invariant_initial G⟩ ?_
  rintro _ s e s' _ ⟨g, rfl, hg⟩ hreach hstep
  exact invariant_step hg hreach hstep

/-- How an InView message makes the replica commit. -/
structure CommitsInView (E : Env) (m : InViewMessage) (s t : Replica) : Prop where
  status : s.status = .normal
  view : m.view = s.view
  leader : E.config.getLeaderIndex m.view = E.replicaIdx
  quorum : s.inViewQuorum.numRequired ≤
    ((s.inViewQuorum.add m.view m.replicaidx m).messages m.view).size
  committed : t.lastCommitted = m.lastspeculative
  log : stamps t.log = stamps s.log
  status' : t.status = s.status
  view' : t.view = s.view

theorem handleInView_commits {E : Env} {P : Request → Prop} {m : InViewMessage} {s : Replica}
    (h : WellLogged P E.sha1 s) : Sat (handleInView E m) s
      (fun _ t _ => s.lastCommitted < t.lastCommitted → CommitsInView E m s t)
      (fun t _ => s.lastCommitted < t.lastCommitted → CommitsInView E m s t) := by
  rw [handleInView]
  simp only [sat_bind, sat_get, sat_ite, sat_pure, sat_assert, sat_modify, sat_whenSome]
  refine ⟨fun _ hlt => absurd hlt (lt_irrefl _), fun hge => ⟨fun hnormal => ⟨fun hlead =>
    ⟨fun msgs hmsgs => ⟨fun hle => ⟨fun _ hlt => absurd hlt (lt_irrefl _), fun hc => ?_⟩,
    fun _ hlt => absurd hlt (lt_irrefl _)⟩, fun _ hlt => absurd hlt (lt_irrefl _)⟩,
    fun _ hlt => absurd hlt (lt_irrefl _)⟩, fun _ hlt => absurd hlt (lt_irrefl _)⟩⟩
  obtain ⟨hview, hst⟩ := not_or.mp hnormal
  obtain ⟨rfl, hsize⟩ := QuorumSet.checkForQuorum_eq_some.mp hmsgs
  have hdone {l u k} (hl : stamps l = stamps s.log) : CommitsInView E m s { s with
      inViewQuorum := s.inViewQuorum.add m.view m.replicaidx m, log := l, upcalls := u, lastSync := k
      lastCommitted := max s.lastCommitted m.lastspeculative } :=
    ⟨not_not.mp hst, Nat.le_antisymm (not_lt.mp hview) (not_lt.mp hge), hlead, hsize,
      max_eq_right (not_lt.mp hc), hl, rfl, rfl⟩
  refine Sat.mono (commitUpTo_sat h.committed) ?_ ?_
  · rintro _ _ _ ⟨rfl, _, l, hl, rfl⟩
    refine Sat.mono sendSync_sat ?_ ?_
    · rintro _ _ _ ⟨⟨k, rfl⟩, _⟩ _
      exact hdone hl
    · rintro _ _ ⟨_, k, rfl⟩ _
      exact hdone hl
  · rintro _ _ ⟨_, hshort, _⟩
    have hshort' : s.log.entries.length < m.lastspeculative := hshort
    exact absurd (hle.trans_eq h.full) (not_le.mpr hshort')

end Views

/-- A replica whose InView message names `k` or more has the leader's log up to there: it was seen with
    it, and has it while it is in the view. -/
theorem Views.GoodInView.held {g : Views.Snapshot} {q v j k : Nat} {L : List (Request × String)}
    (hm : Views.GoodInView G g q v j) (hseen : Views.AllSeen G g q)
    (hlog : g.viewLog v = L) (hL : Sound G.Genuine G.sha1 L)
    (hfree : ∀ t ∈ g.past, NoCollision (nextHash G.sha1) hashKey emptyHash (stamps (t.replica q).log) L)
    (hk : k ≤ j) : ∃ l, g.joined q v l ∧ L.take k <+: l ∧
      ∃ t ∈ g.past, Views.Shows (t.replica q) v l := by
  obtain ⟨_, _, l, hl, hhash⟩ := hm
  obtain ⟨hsound, t, ht, hshow⟩ := hseen v l hl
  refine ⟨l, hl, ?_, t, ht, hshow⟩
  rcases Nat.eq_zero_or_pos j with rfl | hj
  · rw [Nat.le_zero.mp hk, List.take_zero]
    exact List.nil_prefix
  · obtain ⟨hash, hown, hview⟩ := hhash (by omega)
    rw [hlog] at hview
    have heq := hsound.agree hL (NoCollision.of_prefix (hfree t ht) hshow.2.2 List.prefix_rfl)
      (fun _ _ hp hp' hkey => hp.eq_of_key hp' hkey) hown hview
    have htake : L.take k = (l.take j).take k := by
      rw [heq, List.take_take, min_eq_left hk]
    rw [htake]
    exact (List.take_prefix ..).trans (List.take_prefix ..)

/-- What a leader commits on InView messages is held, in its view, by a quorum that it belongs to: each
    member has been in the view with it, and has it still unless it has left the view. -/
theorem inView_commits_held {i r : Nat} {src : Addr} {m : InViewMessage}
    (h : Run (system G) (InViewsReach G) past s) (hi : s.net[i]? = some ⟨src, r, .inView m⟩)
    (hreach : InViewsReach G s (.deliver i)) (hstep : s.step G.protocol (.deliver i) = some s')
    (hfree : NoneCollideIn G (s' :: s :: past))
    (hc : (s.replica r).lastCommitted < (s'.replica r).lastCommitted) :
    ∃ Q, IsQuorum G.config.n G.config.quorumSize Q ∧ r ∈ Q ∧ ∀ q ∈ Q,
      (∃ t ∈ s' :: s :: past,
        HoldsIn (t.replica q) (s'.replica r).view (committedPrefix (s'.replica r))) ∧
      (s'.stopped q = false → (s'.replica q).view = (s'.replica r).view →
        (s'.replica q).status = .normal →
        HoldsIn (s'.replica q) (s'.replica r).view (committedPrefix (s'.replica r))) := by
  obtain ⟨g, rfl, hg⟩ := Views.invariant_run h
  obtain ⟨hg, hseen⟩ := Views.invariant_record hg
  set g₁ : Views.Snapshot := { g with past := s :: g.past }
  obtain ⟨r', handler, hhandler, hr, hlive, hs'⟩ := Net.Sys.step_eq_some hstep
  simp only [Net.Event.handler, hi, Option.map_some, Option.some.injEq, Prod.mk.injEq] at hhandler
  obtain ⟨rfl, rfl⟩ := hhandler
  have hmem : Views.Member G g₁ r (s.replica r) := hg.running r hr hlive
  have hstate : s'.replica r = (handleInView (G.env r) m (s.replica r)).2.1 := by
    rw [hs']
    exact if_pos rfl
  have hothers : ∀ q ≠ r, s'.replica q = s.replica q ∧ s'.stopped q = s.stopped q := by
    intro q hq
    rw [hs']
    exact ⟨if_neg hq, if_neg hq⟩
  have hcommits : Views.CommitsInView (G.env r) m (s.replica r) (s'.replica r) := by
    have := state_of_sat (Views.handleInView_commits (E := G.env r) (m := m) hmem.well)
    rw [← hstate] at this
    exact this hc
  have hlead : G.config.getLeaderIndex (s.replica r).view = r := hcommits.view ▸ hcommits.leader
  have hview : (s'.replica r).view = m.view := hcommits.view'.trans hcommits.view.symm
  have hpre : committedPrefix (s'.replica r) =
      ((stamps (s.replica r).log).take m.lastspeculative).map Prod.fst := by
    rw [committedPrefix_eq, hcommits.log, hcommits.committed]
  have hgood : ∀ y ∈ (((s.replica r).inViewQuorum.add m.view m.replicaidx m).messages m.view).toList,
      Views.GoodInView G g₁ y.1 m.view y.2.lastspeculative := by
    intro y hy
    rcases QuorumSet.mem_messages_add hy with ⟨_, rfl⟩ | hy
    · exact hg.packet _ (List.mem_of_getElem? hi)
    · exact hmem.inViews _ y hy
  have hcount : G.config.quorumSize - 1 ≤
      (((s.replica r).inViewQuorum.add m.view m.replicaidx m).messages m.view).toList.countP
        fun x => m.lastspeculative ≤ x.2.lastspeculative := by
    have hq := hcommits.quorum
    rw [hmem.required] at hq
    simp only [InViewsReach, hi] at hreach
    exact hreach hcommits.view (hcommits.committed ▸ hc) hq
  obtain ⟨Q, hQ, hrQ, hmemQ⟩ := QuorumSet.isQuorum_of_counted hr hcount fun y hy _ =>
    ⟨fun heq => (hgood y hy).2.1 (heq.trans hcommits.leader.symm), (hgood y hy).1⟩
  have hself : HoldsIn (s'.replica r) (s'.replica r).view (committedPrefix (s'.replica r)) :=
    ⟨rfl, hcommits.status'.trans hcommits.status, List.take_prefix ..⟩
  refine ⟨Q, hQ, hrQ, fun q hq => ?_⟩
  rcases hmemQ q hq with rfl | ⟨y, hy, hle⟩
  · exact ⟨⟨s', List.mem_cons_self .., hself⟩, fun _ _ _ => hself⟩
  have hqr : q ≠ r := fun heq => (hgood _ hy).2.1 (heq.trans hcommits.leader.symm)
  have hlog : g₁.viewLog m.view = stamps (s.replica r).log := by
    rw [hcommits.view]
    exact hmem.leads hcommits.status hlead
  obtain ⟨l, hl, htake, t, ht, hshow⟩ := (hgood _ hy).held (hseen q (hQ.lt q hq)) hlog hmem.well.sound
    (fun t ht => hfree t (List.mem_cons_of_mem _ ht) s (by simp) q (hQ.lt q hq) r hr)
    (of_decide_eq_true hle)
  have hholds {t : Replica} (ht : Views.Shows t m.view l) :
      HoldsIn t (s'.replica r).view (committedPrefix (s'.replica r)) := by
    refine ⟨ht.1.trans hview.symm, ht.2.1, ?_⟩
    rw [hpre, show t.log.entries.map LogEntry.request = (stamps t.log).map Prod.fst by
      rw [stamps, List.map_map]
      rfl]
    exact (htake.trans ht.2.2).map _
  refine ⟨⟨t, List.mem_cons_of_mem _ ht, hholds hshow⟩, fun hlive' hv _ => hholds ?_⟩
  rw [(hothers q hqr).1] at hv ⊢
  rw [(hothers q hqr).2] at hlive'
  have hmemq : Views.Member G g₁ q (s.replica q) := hg.running q (hQ.lt q hq) hlive'
  refine (hmemq.joins _ l hl).resolve_left fun hlt => ?_
  rw [hv, hview] at hlt
  exact lt_irrefl _ hlt

/-! In the group of three, replicas 1 and 2 have logged a request when they change to view 1, and the
    leader commits it with the InView message of replica 2. -/

def inViewEvents : List Event :=
  [.client 1 7 (.request 1), .client 2 7 (.request 1), .timeout 1 .viewChange,
    .timeout 2 .viewChange, .deliver 3, .deliver 1, .deliver 4, .deliver 6]

def lastInView : Net.Packet ToReplicaMessage :=
  ⟨.replica 2, 1, .inView { view := 1, lastspeculative := 1, replicaidx := 2 }⟩

def AtMostOneStamp (s : Sys) : Prop := ∀ (r : Nat), r < 3 → stamps (s.replica r).log <+: [oneStamp]

instance (s : Sys) : Decidable (AtMostOneStamp s) := inferInstanceAs (Decidable (∀ _, _ → _))

theorem inView_commits_held_one : ∃ past s s', Run (system oneClient) (InViewsReach oneClient) past s ∧
    s.step oneClient.protocol (.deliver 7) = some s' ∧ (s'.replica 1).lastCommitted = 1 ∧
    ∃ Q, IsQuorum 3 2 Q ∧ 1 ∈ Q ∧ ∀ q ∈ Q, ∃ t ∈ s' :: s :: past,
      HoldsIn (t.replica q) (s'.replica 1).view (committedPrefix (s'.replica 1)) := by
  obtain ⟨past, s, hrun, hs⟩ := Run.exists_of_exec (system oneClient)
    (fun s e => InViewsReach oneClient s e ∧ AtMostOneStamp s) inViewEvents
    (fun s => decide (AtMostOneStamp s ∧ InViewsReach oneClient s (.deliver 7) ∧
        (s.replica 1).lastCommitted = 0 ∧ s.net[7]? = some lastInView) &&
      (s.step oneClient.protocol (.deliver 7)).any fun s' =>
        decide (AtMostOneStamp s' ∧ (s'.replica 1).lastCommitted = 1)) (by decide +kernel)
  obtain ⟨hs, hs'⟩ := Bool.and_eq_true_iff.mp hs
  obtain ⟨hfew, hreach, h0, hi⟩ := of_decide_eq_true hs
  obtain ⟨s', hstep, hs'⟩ := (Option.any_eq_true _ _).mp hs'
  obtain ⟨hfew', h1⟩ := of_decide_eq_true hs'
  have hpast : ∀ t ∈ s' :: s :: past, AtMostOneStamp t :=
    List.forall_mem_cons.mpr ⟨hfew', List.forall_mem_cons.mpr
      ⟨hfew, hrun.forall_past fun _ _ h => h.2⟩⟩
  have hfree : NoneCollideIn oneClient (s' :: s :: past) := fun t ht t' ht' r hr r' hr' =>
    noCollision_oneStamp (hpast t ht r hr) (hpast t' ht' r' hr')
  obtain ⟨Q, hQ, hmem, hall⟩ := inView_commits_held (hrun.weaken fun _ _ h => h.1) hi hreach hstep
    hfree (by omega)
  exact ⟨past, s, s', hrun.weaken fun _ _ h => h.1, hstep, h1, Q, hQ, hmem,
    fun q hq => (hall q hq).1⟩

/-! In a group of five, replica 1 has logged 27 requests and replicas 2 and 4 the first two of them. It
    merges their logs in view 1 and sends them all but the first entry. Replica 2 installs them. Replica
    3 has nothing yet and asks for the rest, and as the leader has logged a request in the meantime, it
    gets 28. Its InView message is the second one that the leader counts, which commits 28. -/

/-- The SHA-1 digests of the 28 requests, one after the other. -/
def digests : List (List Nat) :=
  [[190, 200, 19, 220, 139, 115, 85, 8, 84, 233, 154, 44, 131, 229, 144, 60, 234, 188, 12, 118],
   [18, 222, 155, 36, 38, 69, 124, 189, 60, 187, 135, 174, 189, 118, 112, 72, 110, 143, 85, 219],
   [127, 104, 218, 240, 62, 221, 14, 85, 232, 107, 107, 143, 23, 91, 62, 206, 137, 142, 22, 138],
   [57, 138, 108, 171, 70, 103, 167, 132, 130, 128, 89, 21, 148, 61, 226, 66, 196, 198, 11, 54],
   [242, 218, 250, 60, 42, 17, 143, 186, 87, 167, 65, 181, 12, 211, 209, 52, 92, 192, 189, 222],
   [217, 129, 34, 119, 234, 84, 201, 43, 171, 150, 111, 179, 207, 184, 24, 224, 138, 77, 34, 198],
   [175, 15, 42, 114, 159, 2, 143, 190, 157, 195, 32, 148, 233, 121, 60, 218, 222, 235, 105, 193],
   [45, 66, 133, 36, 164, 128, 190, 92, 39, 228, 151, 156, 170, 155, 104, 88, 77, 132, 232, 117],
   [164, 37, 233, 61, 51, 28, 143, 21, 218, 77, 245, 232, 84, 117, 174, 139, 65, 99, 163, 95],
   [41, 205, 79, 174, 211, 182, 16, 98, 213, 247, 23, 83, 200, 185, 40, 123, 102, 101, 209, 183],
   [221, 171, 218, 69, 195, 90, 195, 227, 54, 70, 234, 129, 170, 204, 181, 162, 106, 162, 56, 247],
   [5, 175, 214, 238, 36, 11, 166, 200, 220, 48, 245, 134, 65, 9, 157, 7, 130, 150, 104, 183],
   [73, 251, 26, 223, 224, 82, 199, 165, 20, 54, 237, 191, 192, 86, 249, 126, 55, 193, 155, 46],
   [223, 186, 126, 249, 235, 242, 33, 154, 216, 229, 98, 219, 217, 171, 86, 155, 143, 190, 167,
    253],
   [109, 183, 130, 57, 249, 153, 236, 213, 141, 99, 11, 72, 10, 54, 39, 186, 52, 180, 172, 149],
   [223, 77, 92, 47, 55, 117, 100, 81, 92, 244, 174, 235, 135, 175, 22, 34, 142, 147, 31, 243],
   [193, 65, 216, 250, 24, 194, 149, 64, 76, 26, 123, 120, 102, 47, 105, 251, 124, 242, 109, 29],
   [210, 111, 17, 116, 243, 74, 117, 244, 233, 221, 184, 41, 201, 131, 229, 175, 200, 173, 187, 56],
   [248, 74, 177, 142, 225, 133, 149, 26, 134, 187, 98, 87, 121, 52, 242, 57, 209, 241, 56, 98],
   [115, 184, 132, 174, 108, 90, 29, 178, 70, 214, 47, 22, 67, 143, 113, 136, 246, 233, 160, 229],
   [88, 205, 240, 129, 57, 133, 165, 20, 32, 189, 120, 58, 83, 146, 213, 216, 215, 209, 253, 62],
   [143, 35, 207, 127, 30, 136, 28, 83, 146, 110, 171, 69, 236, 163, 10, 96, 45, 160, 254, 147],
   [93, 149, 37, 195, 23, 181, 54, 61, 0, 231, 174, 65, 208, 249, 58, 213, 195, 175, 14, 92],
   [129, 30, 141, 0, 99, 150, 214, 252, 218, 51, 253, 167, 249, 109, 19, 40, 209, 198, 186, 148],
   [186, 170, 215, 19, 156, 200, 190, 190, 94, 242, 145, 215, 95, 90, 79, 186, 212, 237, 43, 219],
   [160, 59, 49, 8, 18, 90, 85, 133, 68, 77, 162, 217, 177, 98, 1, 241, 48, 108, 20, 8],
   [27, 213, 110, 155, 141, 88, 230, 34, 43, 171, 152, 32, 201, 254, 151, 196, 214, 70, 138, 32],
   [222, 103, 140, 223, 238, 122, 183, 116, 61, 14, 86, 150, 44, 246, 107, 145, 155, 94, 94, 161]]

def longLog : Group :=
  { config := { n := 5, f := 2 }, app := fun _ => App.default, op := fun _ _ => "a"
    sha1 := fun _ _ i => String.ofList ((digests[i - 1]?.getD []).map Char.ofNat) }

def fillLogGapEvents : List Event :=
  (List.range 27).map (fun i => .client 1 7 (.request (i + 1))) ++
  [.client 2 7 (.request 1), .client 2 7 (.request 2), .client 4 7 (.request 1),
    .client 4 7 (.request 2), .timeout 2 .viewChange, .timeout 4 .viewChange, .timeout 1 .viewChange,
    .deliver 1, .deliver 5, .deliver 6, .deliver 9, .deliver 3, .deliver 11, .deliver 12, .deliver 13,
    .deliver 15, .client 1 7 (.request 28), .deliver 16, .deliver 19, .deliver 20, .deliver 18]

def longInView : Net.Packet ToReplicaMessage :=
  ⟨.replica 3, 1, .inView { view := 1, lastspeculative := 28, replicaidx := 3 }⟩

def ShortElsewhere (s : Sys) : Prop :=
  ∀ (r : Nat), r < 5 → r ≠ 1 → r ≠ 3 → (s.replica r).log.entries.length < 28

instance (s : Sys) : Decidable (ShortElsewhere s) := inferInstanceAs (Decidable (∀ _, _ → _))

theorem inView_commits_long : longLog.config.Valid ∧ longLog.config.quorumSize = 3 ∧ ∃ past s s',
    Run (system longLog) (fun _ _ => True) past s ∧ s.net[21]? = some longInView ∧
    s.step longLog.protocol (.deliver 21) = some s' ∧ (s.replica 1).lastCommitted = 0 ∧
    (s'.replica 1).lastCommitted = 28 ∧
    (∀ t ∈ s' :: s :: past, ∀ r < 5, r ≠ 1 → r ≠ 3 → (t.replica r).log.entries.length < 28) ∧
    ¬ ∃ Q, IsQuorum 5 3 Q ∧ 1 ∈ Q ∧ ∀ q ∈ Q, ∃ t ∈ s' :: s :: past,
      HoldsIn (t.replica q) (s'.replica 1).view (committedPrefix (s'.replica 1)) := by
  refine ⟨rfl, rfl, ?_⟩
  obtain ⟨past, s, hrun, hs⟩ := Run.exists_of_exec (system longLog) (fun s _ => ShortElsewhere s)
    fillLogGapEvents
    (fun s => decide (ShortElsewhere s ∧ (s.replica 1).lastCommitted = 0 ∧ s.net[21]? = some longInView) &&
      (s.step longLog.protocol (.deliver 21)).any fun s' =>
        decide (ShortElsewhere s' ∧ (s'.replica 1).lastCommitted = 28 ∧
          (s'.replica 1).log.entries.length = 28)) (by decide +kernel)
  obtain ⟨hs, hs'⟩ := Bool.and_eq_true_iff.mp hs
  obtain ⟨hfew, h0, hi⟩ := of_decide_eq_true hs
  obtain ⟨s', hstep, hs'⟩ := (Option.any_eq_true _ _).mp hs'
  obtain ⟨hfew', h28, hlen⟩ := of_decide_eq_true hs'
  have hpast : ∀ t ∈ s' :: s :: past, ShortElsewhere t :=
    List.forall_mem_cons.mpr ⟨hfew', List.forall_mem_cons.mpr
      ⟨hfew, hrun.forall_past (p := ShortElsewhere) fun _ _ h => h⟩⟩
  refine ⟨past, s, s', hrun.weaken fun _ _ _ => trivial, hi, hstep, h0, h28, hpast, ?_⟩
  rintro ⟨Q, hQ, -, hall⟩
  have hsub : Q ⊆ {1, 3} := by
    intro q hq
    obtain ⟨t, ht, -, -, hpre⟩ := hall q hq
    by_contra hne
    obtain ⟨h1, h3⟩ : q ≠ 1 ∧ q ≠ 3 := by simpa using hne
    have hle := hpre.length_le
    rw [committedPrefix, h28, List.length_take, List.length_map, List.length_map, hlen] at hle
    have hlt := hpast t ht q (hQ.lt q hq) h1 h3
    omega
  have hcard := hQ.card.trans (Finset.card_le_card hsub)
  exact absurd hcard (by decide)

end Dsnet.Spec
