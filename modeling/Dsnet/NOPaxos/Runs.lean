import Dsnet.NOPaxos.ViewChange

/-! The runs of a NOPaxos group: every handler keeps the invariant of the group, so it holds of every state
    that a run reaches. What a reply to a state transfer request does then depends on the log and the committed
    gaps alone. -/

namespace Dsnet.NOPaxos
open Handler Net.GhostInvariant

variable {G : Group} {r : Nat} {g : Sent} {s : Replica}

/-! ### Starting a view change -/

/-- The state in which a replica begins to change views. -/
theorem running_changing (h : Running g (G.env r) s) {newsessnum newview : Nat}
    (hnew : newsessnum > s.sessnum ∨ newview > s.view) :
    Running g (G.env r) (s.changing (max newsessnum s.sessnum) (max newview s.view)) ∧
    Awaits g (G.env r) (s.changing (max newsessnum s.sessnum) (max newview s.view)) := by
  have hle : s.viewId ≤ (s.changing (max newsessnum s.sessnum) (max newview s.view)).viewId :=
    ⟨le_max_right .., le_max_right ..⟩
  have hnot {v : Nat × Nat} (hv : v ≤ s.viewId) :
      v ≠ (s.changing (max newsessnum s.sessnum) (max newview s.view)).viewId := by
    rintro rfl
    obtain ⟨h1, h2⟩ := hv
    simp only [Replica.viewId, Replica.changing] at h1 h2
    omega
  have hgaps : ∀ x ∈ (s.changing (max newsessnum s.sessnum) (max newview s.view)).committedGaps.toList,
      x ≤ s.lastOp := fun x hx => (StdSet.mem_upTo.mp hx).2
  refine ⟨⟨⟨h.synced, fun hnz => absurd rfl hnz, fun v m hm => (h.viewChange_le v m hm).trans hle,
      fun v ha => (h.asked_le v ha).trans hle, fun h => (by cases h), fun _ => rfl, fun v k m hm => (by cases hm)⟩,
      fun h => (by cases h), fun _ _ x hx => Or.inl (hgaps x hx)⟩,
    hgaps, fun ha => hnot (h.asked_le _ ha) rfl, fun m hm => absurd rfl (hnot (h.viewChange_le _ m hm)), rfl⟩

/-- `StartViewChange`. -/
theorem spec_startViewChange (h : Running g (G.env r) s) (newsessnum newview : Nat) :
    G.Spec r g (startViewChange (G.env r) newsessnum newview) s fun _ g' t => Running g' (G.env r) t ∧
      t = (s.changing (max newsessnum s.sessnum) (max newview s.view)).start .viewChange := by
  simp only [startViewChange, spec_get_bind, spec_assert_bind, spec_modify_bind]
  refine ⟨fun hnew => ?_, fun _ => .same trivial⟩
  obtain ⟨hrun, haw⟩ := running_changing h hnew
  exact (spec_sendViewChange hrun rfl fun _ => haw).mono fun _ _ _ _ h => ⟨h.2, h.1⟩

/-- A handler that first checks the view goes on in the view of the message. -/
theorem spec_checked (h : Running g (G.env r) s) {sessnum view : Nat} {m : NOPaxosHandler Unit}
    (hm : InView g (G.env r) s → s.viewId = (sessnum, view) →
      G.Spec r g m s fun _ g' t => Running g' (G.env r) t) :
    G.Spec r g (checkViewNumAndStatus (G.env r) sessnum view >>= fun ok => when (ok = true) m) s
      fun _ g' t => Running g' (G.env r) t := by
  refine .bind (J := fun ok g' t => Running g' (G.env r) t ∧ (ok = true → g' = g ∧ t = s ∧
    s.status ≠ .viewChange ∧ s.viewId = (sessnum, view))) ?_ ?_
  · simp only [checkViewNumAndStatus, spec_get_bind, spec_ite, spec_pure]
    refine ⟨fun _ => .same ⟨h, fun hf => by cases hf⟩, fun hold => ⟨fun _ => ?_, fun hnew => ?_⟩⟩
    · exact .bind (spec_startViewChange h _ _) fun _ g' t _ h' =>
        spec_pure.mpr (.same ⟨h'.1, fun hf => by cases hf⟩)
    · refine .same ⟨h, fun hok => ⟨rfl, rfl, of_decide_eq_true hok, ?_⟩⟩
      exact Prod.ext (by simp only [Replica.viewId]; omega) (by simp only [Replica.viewId]; omega)
  · rintro ok g' t - ⟨h', hok⟩
    rw [spec_when]
    refine ⟨fun htrue => ?_, fun _ => .same h'⟩
    obtain ⟨rfl, rfl, hst, hid⟩ := hok htrue
    exact hm (h.inView hst) hid

/-! ### Gaps -/

variable {E : Env}

theorem same_sendGapCommit : Relates (Same Replica.outline) (sendGapCommit E) :=
  relates_get.bind fun _ => relates_assert.bind fun _ => relates_assert.bind fun _ => relates_emit.bind fun _ =>
    same_modify fun _ => by rfl

/-- A timer that is started in a view. -/
theorem inView_sendGapRequest : Relates (Kept (InView g E)) (sendGapRequest E) :=
  relates_get.bind fun _ => relates_emit.bind fun _ => relates_modify fun _ h =>
    { h with
      changing := fun ha => h.changing (by simpa [Replica.start] using ha)
      requests := fun hs => absurd hs h.status }

theorem inView_startGapAgreement : Relates (Kept (InView g E)) (startGapAgreement E) :=
  relates_get.bind fun _ => relates_assert.bind fun _ => .bind (relates_modify fun _ h =>
    { h with
      changing := fun ha => absurd (h.changing (by simpa [Replica.stop] using ha)) h.status
      requests := fun hs => by cases hs
      status := fun hs => by cases hs }) fun _ =>
    (inView_of_grows (grows_processNextOperation _ _ _)).bind fun _ => inView_of_same same_sendGapCommit

theorem spec_handleGapRequest (h : Running g (G.env r) s) (remote : Addr) (m : GapRequestMessage) :
    G.Spec r g (handleGapRequest (G.env r) remote m) s fun _ g' t => Running g' (G.env r) t :=
  spec_checked h fun hin _ => spec_of_inView hin
    (inView_of_same (relates_get.bind fun _ => relates_ofOption.bind fun _ => .whenSome fun _ => relates_emit))
    (emits_get.bind fun _ => emits_ofOption.bind fun _ => .whenSome fun _ => emits_emit trivial)

theorem spec_handleGapReply (h : Running g (G.env r) s) (m : GapReplyMessage) :
    G.Spec r g (handleGapReply (G.env r) m) s fun _ g' t => Running g' (G.env r) t :=
  spec_checked h fun hin _ => spec_of_inView hin
    (relates_get.bind fun _ => .when <| .ite relates_assert <|
      .ite (inView_of_grows (grows_processNextOperation _ _ _)) <| .when <|
        (relates_modify fun _ h => h.congr (by rfl)).bind fun _ => .whenSome fun _ => inView_startGapAgreement)
    (emits_get.bind fun _ => .when <| .ite emits_assert <| .ite (emits_processNextOperation _ _ _) <|
      .when <| emits_modify.bind fun _ => .whenSome fun _ => emits_startGapAgreement)

theorem spec_handleGapCommit (h : Running g (G.env r) s) (remote : Addr) (m : GapCommitMessage) :
    G.Spec r g (handleGapCommit (G.env r) remote m) s fun _ g' t => Running g' (G.env r) t :=
  spec_checked h fun hin _ => spec_of_inView hin
    (relates_get.bind fun _ => relates_assert.bind fun _ =>
      .ite (relates_modify fun _ h => h.setGap m.opnum) <| .ite
        ((relates_modify fun _ h => (h.setStatus m.opnum .noop).setGap m.opnum).bind fun _ =>
          relates_get.bind fun _ => relates_emit)
        ((inView_of_grows (grows_processNextOperation _ _ _)).bind fun _ => relates_get.bind fun _ => relates_emit))
    (emits_get.bind fun _ => emits_assert.bind fun _ => .ite emits_modify <| .ite
      (emits_modify.bind fun _ => emits_get.bind fun _ => emits_emit trivial)
      ((emits_processNextOperation _ _ _).bind fun _ => emits_get.bind fun _ => emits_emit trivial))

theorem spec_handleGapCommitReply (h : Running g (G.env r) s) (m : GapCommitReplyMessage) :
    G.Spec r g (handleGapCommitReply (G.env r) m) s fun _ g' t => Running g' (G.env r) t :=
  spec_checked h fun hin _ => spec_of_inView hin
    (relates_get.bind fun _ => .when <| (relates_modify fun _ h => h.congr (by rfl)).bind fun _ =>
      .whenSome fun _ => relates_modify fun _ h =>
        { h with
          changing := fun ha => absurd (h.changing (by simpa [Replica.stop] using ha)) h.status
          requests := fun hs => by cases hs
          status := fun hs => by cases hs })
    (emits_get.bind fun _ => .when <| emits_modify.bind fun _ => .whenSome fun _ => emits_modify)

/-! ### Synchronization -/

theorem spec_handleSyncPrepareReply (h : Running g (G.env r) s) (m : SyncPrepareReplyMessage) :
    G.Spec r g (handleSyncPrepareReply (G.env r) m) s fun _ g' t => Running g' (G.env r) t :=
  spec_checked h fun hin _ => spec_of_inView hin
    (inView_of_same (relates_get.bind fun _ => relates_assert.bind fun _ => .when <|
      (same_modify fun _ => by rfl).bind fun _ => .whenSome fun _ => same_commitUptoOp _))
    (emits_get.bind fun _ => emits_assert.bind fun _ => .when <| emits_modify.bind fun _ =>
      .whenSome fun _ => emits_commitUptoOp _)

theorem spec_handleSyncCommit (h : Running g (G.env r) s) (m : SyncCommitMessage) :
    G.Spec r g (handleSyncCommit (G.env r) m) s fun _ g' t => Running g' (G.env r) t :=
  spec_checked h fun hin _ => spec_of_inView hin
    (inView_of_same (relates_get.bind fun _ => relates_assert.bind fun _ => .when <|
      (same_modify fun _ => by rfl).bind fun _ => .ite
        (.when ((same_commitUptoOp _).bind fun _ => same_modify fun _ => by rfl)) relates_emit))
    (emits_get.bind fun _ => emits_assert.bind fun _ => .when <| emits_modify.bind fun _ =>
      .ite (.when ((emits_commitUptoOp _).bind fun _ => emits_modify)) (emits_emit trivial))

theorem spec_handleSyncPrepareRequest (h : Running g (G.env r) s) (remote : Addr) (m : SyncPrepareRequestMessage) :
    G.Spec r g (handleSyncPrepareRequest (G.env r) remote m) s fun _ g' t => Running g' (G.env r) t :=
  spec_checked h fun hin _ => spec_of_inView hin
    (inView_of_same (relates_get.bind fun _ => relates_assert.bind fun _ => relates_emit.bind fun _ =>
      .when relates_emit))
    (emits_get.bind fun _ => emits_assert.bind fun _ => (emits_emit trivial).bind fun _ =>
      .when (emits_emit trivial))

/-- `HandleStartViewReply` commits, and does nothing else of account. -/
theorem spec_handleStartViewReply (h : Running g (G.env r) s) (m : StartViewReplyMessage) :
    G.Spec r g (handleStartViewReply (G.env r) m) s fun _ g' t => Running g' (G.env r) t :=
  spec_of_kept h
    (kept_of_same (relates_get.bind fun _ => .ite relates_pure <| relates_assert.bind fun _ =>
      relates_assert.bind fun _ => .when <| (same_modify fun _ => by rfl).bind fun _ => .whenSome fun _ =>
        (same_commitUptoOp _).bind fun _ => same_modify fun _ => by rfl))
    (emits_get.bind fun _ => .ite emits_pure <| emits_assert.bind fun _ => emits_assert.bind fun _ => .when <|
      emits_modify.bind fun _ => .whenSome fun _ => (emits_commitUptoOp _).bind fun _ => emits_modify)

theorem spec_reachSyncPoint (h : InView g (G.env r) s) (hl : ¬ amLeader (G.env r) s) (lastop view : Nat) :
    G.Spec r g (reachSyncPoint (G.env r) lastop view) s fun _ g' t => Running g' (G.env r) t := by
  simp only [reachSyncPoint, spec_get_bind, spec_ite, spec_modify_bind]
  refine ⟨fun _ => ?_, fun _ => spec_of_inView h (inView_of_same (same_processSyncPrepare _))
    (emits_processSyncPrepare _)⟩
  have hin : InView g (G.env r) { s with
      stateTransferOpBegin := s.lastOp + 1
      stateTransferOpEnd := lastop + 1
      stateTransferReplicaIdx := (G.env r).config.getLeaderIndex view
      stateTransferCallback := some (.processSyncPrepare lastop) } :=
    { h with callback := fun _ => ⟨hl, Nat.le_succ lastop⟩ }
  rw [spec_when]
  exact ⟨fun _ => spec_sendStateTransferRequest hin.running fun ha => absurd (h.changing ha) h.status,
    fun _ => .same hin.running⟩

theorem spec_handleSyncPrepare (h : Running g (G.env r) s) (m : SyncPrepareMessage) :
    G.Spec r g (handleSyncPrepare (G.env r) m) s fun _ g' t => Running g' (G.env r) t :=
  spec_checked h fun hin _ => by
    have hheard : InView g (G.env r) (s.start .leaderSyncHeard) := hin.congr rfl
    refine spec_modify_bind.mpr (spec_get_bind.mpr (spec_when.mpr ⟨fun _ => ?_, fun _ => .same hheard.running⟩))
    refine spec_assert_bind.mpr ⟨fun hl => spec_modify_bind.mpr ?_, fun _ => .same trivial⟩
    -- the gaps are installed in the view of the message
    refine .bind (spec_of_plain (K := fun _ t => InView g (G.env r) t ∧ t.viewId = s.viewId) ?_
      (emits_installCommittedGaps _)) ?_
    · exact ((inView_installCommittedGaps _ _).and (same_viewId_installCommittedGaps g _ _)).mono
        (fun _ _ _ h => ⟨h.1 (hheard.congr rfl), h.2⟩) fun _ _ _ => trivial
    · rintro _ g' t - ⟨rfl, ht, hid⟩
      exact spec_reachSyncPoint ht (by rwa [amLeader, show t.view = s.view from congrArg Prod.snd hid]) _ _

/-! ### State transfer -/

theorem spec_handleStateTransferRequest (h : Running g (G.env r) s) (remote : Addr) (m : StateTransferRequestMessage)
    (hm : ∀ j, remote = .replica j → g.asked j (m.sessnum, m.view)) :
    G.Spec r g (handleStateTransferRequest remote m) s fun _ g' t => Running g' (G.env r) t := by
  simp only [handleStateTransferRequest, spec_get_bind, spec_ite, spec_pure, spec_ofOption_bind, spec_emit]
  refine ⟨fun _ => .same h, fun hid => ⟨fun _ => .same h, fun _ => ⟨fun es _ => .sends h fun p hp => ?_,
    fun _ => .same trivial⟩⟩⟩
  cases remote with
  | client c => cases hp
  | replica j =>
    obtain rfl := List.mem_singleton.mp hp
    have := hm j rfl
    rw [not_or, not_not, not_not] at hid
    rwa [hid.1, hid.2] at this

theorem grows_handleStateTransferReply {p : Nat → Prop} (m : StateTransferReplyMessage) :
    Relates (Grows g E p) (handleStateTransferReply E m) :=
  relates_get.bind fun _ => .ite relates_pure <| .ite relates_pure <| relates_ofOption.bind fun _ =>
    relates_assert.bind fun _ => relates_ofOption.bind fun _ => relates_assert.bind fun _ =>
    relates_assert.bind fun _ => .forEach (fun _ => relates_get.bind fun _ => relates_assert.bind fun _ =>
      grows_processNextOperation _ _ _) _

theorem emits_handleStateTransferReply (m : StateTransferReplyMessage) :
    Emits PlainOutput (handleStateTransferReply E m) :=
  emits_get.bind fun _ => .ite emits_pure <| .ite emits_pure <| emits_ofOption.bind fun _ =>
    emits_assert.bind fun _ => emits_ofOption.bind fun _ => emits_assert.bind fun _ =>
    emits_assert.bind fun _ => .forEach (fun _ => emits_get.bind fun _ => emits_assert.bind fun _ =>
      emits_processNextOperation _ _ _) _

/-- A replica that has not asked for a state transfer in its view gets no reply of that view. -/
theorem spec_handleStateTransferReply (h : Running g (G.env r) s) (m : StateTransferReplyMessage)
    (hm : g.asked r (m.sessnum, m.view)) :
    G.Spec r g (handleStateTransferReply (G.env r) m) s fun _ g' t => Running g' (G.env r) t := by
  by_cases hfree : s.active .viewChange = true → amLeader (G.env r) s
  · refine (spec_of_plain ((grows_handleStateTransferReply (g := g) m s).mono (fun _ _ _ h' => h'.running h hfree)
      fun _ _ h => h) (emits_handleStateTransferReply m)).mono ?_
    rintro _ g' t - ⟨rfl, ht⟩
    exact ht
  · obtain ⟨ha, hl⟩ := Classical.not_imp.mp hfree
    have hne : m.sessnum ≠ s.sessnum ∨ m.view ≠ s.view := by
      by_contra heq
      rw [not_or, not_not, not_not] at heq
      rw [heq.1, heq.2] at hm
      exact (h.waiting ha hl).not_asked hm
    simp only [handleStateTransferReply, spec_get_bind, spec_ite, spec_pure]
    exact ⟨fun _ => .same h, fun hn => absurd hne hn⟩

/-! ### Merging the logs -/

theorem Latest.le_update (l : Latest) (x : ViewChangeMessage) :
    l.sessnum ≤ (l.update x).sessnum ∧ l.view ≤ (l.update x).view := by
  by_cases hsess : x.lastnormalsessnum > l.sessnum <;> by_cases hview : x.lastnormalview > l.view <;>
    simp only [Latest.update, hsess, hview, if_true, if_false] <;> omega

/-- The latest view is no older than the one in which the leader was last in normal operation. -/
theorem le_findLatest (s : Replica) (msgs : List (Nat × ViewChangeMessage)) :
    s.lastNormalSessnum ≤ (findLatest s msgs).sessnum ∧ s.lastNormalView ≤ (findLatest s msgs).view := by
  have hfold : ∀ (msgs : List (Nat × ViewChangeMessage)) (l : Latest),
      l.sessnum ≤ (msgs.foldl (fun l kv => l.update kv.2) l).sessnum ∧
        l.view ≤ (msgs.foldl (fun l kv => l.update kv.2) l).view := by
    intro msgs
    induction msgs with
    | nil => exact fun l => ⟨le_refl _, le_refl _⟩
    | cons kv msgs ih =>
      intro l
      obtain ⟨h1, h2⟩ := l.le_update kv.2
      obtain ⟨h3, h4⟩ := ih (l.update kv.2)
      exact ⟨h1.trans h3, h2.trans h4⟩
  exact hfold msgs ⟨s.lastNormalSessnum, s.lastNormalView, s.lastOp⟩

theorem grows_mergeGaps {p : Nat → Prop} (latest : Latest) :
    ∀ (msgs : List (Nat × ViewChangeMessage)) (latestOp : Nat) (idx : Option Nat),
      (∀ kv ∈ msgs, kv.2.lastnormalsessnum = latest.sessnum → kv.2.lastnormalview = latest.view →
        ∀ gap ∈ kv.2.committedgaps, p gap) →
      Relates (Grows g E p) (mergeGaps E latest msgs latestOp idx)
  | [], _, _, _ => relates_pure
  | (k, x) :: rest, latestOp, idx, hp => relates_assert.bind fun _ => relates_assert.bind fun _ => by
      have hrest (op : Nat) (i : Option Nat) : Relates (Grows g E p) (mergeGaps E latest rest op i) :=
        grows_mergeGaps latest rest op i fun kv hkv => hp kv (List.mem_cons_of_mem _ hkv)
      intro s
      rw [sat_ite]
      refine ⟨fun hx => ?_, fun _ => hrest _ _ s⟩
      exact ((grows_installCommittedGaps (hp (k, x) (List.mem_cons_self ..) hx.1 hx.2)).bind fun _ =>
        .ite (hrest _ _) (hrest _ _)) s

theorem emits_mergeGaps (latest : Latest) : ∀ (msgs : List (Nat × ViewChangeMessage)) (latestOp : Nat)
    (idx : Option Nat), Emits PlainOutput (mergeGaps E latest msgs latestOp idx)
  | [], _, _ => emits_pure
  | (_, _) :: rest, _, _ => emits_assert.bind fun _ => emits_assert.bind fun _ => .ite
      ((emits_installCommittedGaps _).bind fun _ => .ite (emits_mergeGaps latest rest _ _)
        (emits_mergeGaps latest rest _ _))
      (emits_mergeGaps latest rest _ _)

/-- `HandleViewChange` once the logs are merged: the leader enters the view, or asks for what it lacks. -/
theorem spec_startMergedView (h : Base g (G.env r) s) (hl : amLeader (G.env r) s) (hm : Merging (G.env r) s)
    (latest : Latest) (latestOp : Nat) (idx : Option Nat) :
    G.Spec r g (startMergedView (G.env r) latest latestOp idx) s fun _ g' t => Running g' (G.env r) t := by
  simp only [startMergedView, spec_get_bind, spec_assert_bind, spec_modify_bind]
  refine ⟨fun _ => ?_, fun _ => .same trivial⟩
  cases idx with
  | none =>
    simp only [spec_assert_bind]
    refine ⟨fun _ => ?_, fun _ => .same trivial⟩
    refine (spec_of_plain (K := fun _ t => InView g (G.env r) t) ?_ (emits_enterView _ _)).mono ?_
    · exact (enterView_inView _ _ _).mono (fun _ t _ ht => ht.1 { h with }) fun _ _ h => h
    · rintro _ g' t - ⟨rfl, ht⟩
      exact ht.running
  | some i =>
    simp only [spec_assert_bind, spec_modify_bind]
    refine ⟨fun _ => spec_sendStateTransferRequest ?_ fun _ => hl, fun _ => .same trivial⟩
    exact { h with callback := fun _ => trivial, waiting := fun _ hn => absurd hl hn, merging := hm }

/-- `HandleViewChange` of a leader with the messages it has. -/
theorem spec_mergeLogs (h : Running g (G.env r) s) (hl : amLeader (G.env r) s) :
    G.Spec r g (mergeLogs (G.env r) (s.viewChangeQuorum.messages s.viewId)) s
      fun _ g' t => Running g' (G.env r) t := by
  simp only [mergeLogs, spec_get_bind]
  -- what the messages of the latest view name is reported
  have hreported : ∀ kv ∈ (s.viewChangeQuorum.messages s.viewId).toList,
      kv.2.lastnormalsessnum = (findLatest s (s.viewChangeQuorum.messages s.viewId).toList).sessnum →
      kv.2.lastnormalview = (findLatest s (s.viewChangeQuorum.messages s.viewId).toList).view →
      ∀ gap ∈ kv.2.committedgaps, Reported s gap := by
    rintro ⟨k, x⟩ hkv hsess hview gap hgap
    obtain ⟨h1, h2⟩ := le_findLatest s (s.viewChangeQuorum.messages s.viewId).toList
    refine ⟨k, x, hkv, g.gaps_le _ _ _ (h.quorum _ _ _ hkv) gap hgap, ?_⟩
    simp only [Replica.isBehind] at hsess hview ⊢
    omega
  refine .bind (spec_of_plain (K := fun _ t => Base g (G.env r) t ∧ Merging (G.env r) t ∧ t.viewId = s.viewId ∧
    (∀ x, Reported s x → Reported t x)) ?_ ?_) ?_
  · rw [sat_when]
    refine ⟨fun _ => ?_, fun _ => ⟨h.toBase, h.merging, rfl, fun _ h => h⟩⟩
    simp only [sat_bind, sat_modify]
    refine ((rewindLogToOpnum_spec s _).and (kept_rewindLogToOpnum (g := g) (E := G.env r) _ s)).mono
      (fun _ t _ ht => ?_) fun _ _ _ => trivial
    obtain ⟨⟨-, log, -, rfl, -⟩, hbase⟩ := ht
    exact ⟨{ hbase h.toBase with }, fun _ _ x hx => absurd hx List.not_mem_nil, rfl, fun _ h => h⟩
  · exact .when ((emits_rewindLogToOpnum _).bind fun _ => emits_modify)
  · rintro _ g' t - ⟨rfl, hbase, hmerging, hid, hrep⟩
    refine .bind (spec_of_plain (K := fun _ t' => Base g' (G.env r) t' ∧ Merging (G.env r) t' ∧
      t'.viewId = s.viewId) ?_ (emits_mergeGaps _ _ _ _)) ?_
    · refine (grows_mergeGaps (g := g') _ _ _ _ hreported t).mono (fun _ t' _ ht => ?_) fun _ _ _ => trivial
      exact ⟨ht.base hbase, ht.merging hmerging hrep, ht.viewId.trans hid⟩
    · rintro ⟨latestOp, idx⟩ g'' t' - ⟨rfl, hbase', hmerging', hid'⟩
      refine spec_startMergedView hbase' ?_ hmerging' _ _ _
      rwa [amLeader, show t'.view = s.view from congrArg Prod.snd hid']

/-- The replica when a message of this view has reached it: it changes views if the view is new to it. -/
def Replica.caughtUp (s : Replica) (sessnum view : Nat) : Replica :=
  if sessnum > s.sessnum ∨ view > s.view then
    (s.changing (max sessnum s.sessnum) (max view s.view)).start .viewChange
  else s

theorem spec_catchUp (h : Running g (G.env r) s) (sessnum view : Nat) :
    G.Spec r g (when (sessnum > s.sessnum ∨ view > s.view) (startViewChange (G.env r) sessnum view)) s
      fun _ g' t => Running g' (G.env r) t ∧ t = s.caughtUp sessnum view := by
  rw [Group.Spec, spec_when, Replica.caughtUp]
  refine ⟨fun hnew => ?_, fun hold => .same ⟨h, (if_neg hold).symm⟩⟩
  rw [if_pos hnew]
  exact spec_startViewChange h _ _

theorem spec_handleViewChangeRequest (h : Running g (G.env r) s) (m : ViewChangeRequestMessage) :
    G.Spec r g (handleViewChangeRequest (G.env r) m) s fun _ g' t => Running g' (G.env r) t :=
  spec_get_bind.mpr ((spec_catchUp h m.sessnum m.view).mono fun _ _ _ _ h => h.1)

/-- The leader with one more ViewChange message. -/
def Replica.withViewChange (s : Replica) (m : ViewChangeMessage) : Replica :=
  { s with viewChangeQuorum := s.viewChangeQuorum.add (m.sessnum, m.view) m.replicaidx m }

/-- A replica's message for a view is always the same one. -/
theorem running_withViewChange (h : Running g (G.env r) s) {m : ViewChangeMessage}
    (hm : g.viewChange m.replicaidx (m.sessnum, m.view) = some m) (hid : s.viewId = (m.sessnum, m.view)) :
    Running g (G.env r) (s.withViewChange m) := by
  have hkept {k : Nat} {x : ViewChangeMessage} (hx : (k, x) ∈ (s.viewChangeQuorum.messages s.viewId).toList) :
      (k, x) ∈ ((s.withViewChange m).viewChangeQuorum.messages s.viewId).toList := by
    rw [Replica.withViewChange, hid, QuorumSet.messages_add_self]
    rw [hid] at hx
    by_cases hk : k = m.replicaidx
    · subst hk
      obtain rfl : m = x := Option.some.inj (hm.symm.trans (h.quorum _ _ _ hx))
      exact StdMap.mem_insert_self _ _ _
    · exact StdMap.mem_insert_of_ne hx hk
  refine { h with
    quorum := fun v k x hx => ?_
    waiting := fun ha hl => { h.waiting ha hl with }
    merging := fun hs hl x hx => (h.merging hs hl x hx).imp_right ?_ }
  · rcases QuorumSet.mem_messages_add hx with ⟨rfl, hkx⟩ | hx
    · obtain ⟨rfl, rfl⟩ := Prod.mk.inj hkx
      exact hm
    · exact h.quorum v k x hx
  · rintro ⟨k, y, hy, hle, hnormal⟩
    exact ⟨k, y, hkept hy, hle, hnormal⟩

theorem spec_handleViewChange (h : Running g (G.env r) s) (remote : Addr) (m : ViewChangeMessage)
    (hm : g.viewChange m.replicaidx (m.sessnum, m.view) = some m) :
    G.Spec r g (handleViewChange (G.env r) remote m) s fun _ g' t => Running g' (G.env r) t := by
  refine spec_get_bind.mpr (.bind (spec_catchUp h m.sessnum m.view) fun _ g' t hg ht => ?_)
  obtain ⟨ht, htcaught⟩ := ht
  refine spec_get_bind.mpr (spec_ite.mpr ⟨fun _ => .same ht, fun hold => ?_⟩)
  have hid : t.viewId = (m.sessnum, m.view) := by
    subst htcaught
    unfold Replica.caughtUp at hold ⊢
    split_ifs at hold ⊢ with hnew <;> simp only [Replica.viewId, Replica.changing, Replica.start, Prod.mk.injEq] at hold ⊢ <;>
      omega
  refine spec_assert_bind.mpr ⟨fun hl => spec_ite.mpr ⟨fun _ => ?_, fun hst => spec_modify_bind.mpr ?_⟩, fun _ => .same trivial⟩
  · exact .sends ht (good_of_plain trivial)
  · have hrun := running_withViewChange ht (hg.viewChange _ _ _ hm) hid
    refine spec_whenSome.mpr ⟨fun msgs hq => ?_, fun _ => .same hrun⟩
    obtain ⟨rfl, -⟩ := QuorumSet.checkForQuorum_eq_some.mp hq
    have := spec_mergeLogs hrun hl
    rwa [show (t.withViewChange m).viewId = (m.sessnum, m.view) from hid] at this

/-! ### Starting a view -/

theorem relates_rewindForStartView {R : Replica → Replica → Prop} [Std.Refl R] [IsTrans Replica R]
    (hR : ∀ k, Relates R (rewindLogToOpnum k)) (m : StartViewMessage) : Relates R (rewindForStartView m) := by
  refine relates_get.bind fun s => .ite ((hR _).bind fun _ => .when ?_)
    (relates_assert.bind fun _ => relates_assert.bind fun _ => (hR _).when.bind fun _ => .when ?_)
  all_goals
    cases s.committedGaps.toList.getLast? with
    | none => exact relates_pure
    | some lastGap =>
      cases m.committedgaps.getLast? with
      | none => exact relates_pure
      | some last => exact (hR _).when

theorem same_viewId_rewindLogToOpnum (k : Nat) : Relates (Same Replica.viewId) (rewindLogToOpnum k) := fun s =>
  (rewindLogToOpnum_spec s k).mono (fun _ _ _ h => by
    obtain ⟨-, log, -, rfl, -⟩ := h
    rfl) fun _ _ h => h

theorem emits_rewindForStartView (m : StartViewMessage) : Emits PlainOutput (rewindForStartView m) := by
  refine emits_get.bind fun s => .ite ((emits_rewindLogToOpnum _).bind fun _ => .when ?_)
    (emits_assert.bind fun _ => emits_assert.bind fun _ => (Emits.when (emits_rewindLogToOpnum _)).bind fun _ =>
      .when ?_)
  all_goals
    cases s.committedGaps.toList.getLast? with
    | none => exact emits_pure
    | some lastGap =>
      cases m.committedgaps.getLast? with
      | none => exact emits_pure
      | some last => exact .when (emits_rewindLogToOpnum _)

theorem spec_enterStartedView (h : Base g (G.env r) s) {m : StartViewMessage} (hle : s.viewId ≤ (m.sessnum, m.view))
    (hl : (G.env r).config.getLeaderIndex m.view ≠ r) :
    G.Spec r g (enterStartedView (G.env r) m) s fun _ g' t => Running g' (G.env r) t := by
  refine spec_get_bind.mpr (spec_ite.mpr ⟨fun _ => spec_modify_bind.mpr ?_, fun _ => ?_⟩)
  · refine spec_sendStateTransferRequest ?_ (nomatch ·)
    exact ⟨⟨h.synced, fun _ => trivial, fun v x hx => (h.viewChange_le v x hx).trans hle,
      fun v ha => (h.asked_le v ha).trans hle, (nomatch ·), fun _ => rfl, fun v k x hx => (nomatch hx)⟩,
      (nomatch ·), fun _ hn => absurd hn hl⟩
  · refine (spec_of_plain (K := fun _ t => InView g (G.env r) t) ?_ (emits_enterView _ _)).mono ?_
    · exact (enterView_inView _ _ _).mono (fun _ t _ ht => ht.1 h) fun _ _ h => h
    · rintro _ g' t - ⟨rfl, ht⟩
      exact ht.running

theorem spec_handleStartView (h : Running g (G.env r) s) (m : StartViewMessage) :
    G.Spec r g (handleStartView (G.env r) m) s fun _ g' t => Running g' (G.env r) t := by
  refine spec_get_bind.mpr (spec_ite.mpr ⟨fun _ => .same h, fun hold => spec_ite.mpr ⟨fun _ => ?_, fun _ => ?_⟩⟩)
  · exact spec_of_kept h (kept_of_same same_sendStartViewReply) emits_sendStartViewReply
  · refine spec_assert_bind.mpr ⟨fun hl => ?_, fun _ => .same trivial⟩
    have hle : s.viewId ≤ (m.sessnum, m.view) := by
      rw [not_or, not_lt, not_lt] at hold
      exact hold
    -- the log and the gaps change in the old view
    refine .bind (spec_of_plain (K := fun _ t => Base g (G.env r) t ∧ t.viewId = s.viewId) ?_
      (emits_rewindForStartView m)) ?_
    · exact ((relates_rewindForStartView kept_rewindLogToOpnum m s).and
        (relates_rewindForStartView same_viewId_rewindLogToOpnum m s)).mono
        (fun _ _ _ ht => ⟨ht.1 h.toBase, ht.2⟩) fun _ _ _ => trivial
    · rintro _ g' t - ⟨rfl, ht, hid⟩
      refine spec_modify_bind.mpr (.bind (spec_of_plain (K := fun _ t => Base g' (G.env r) t ∧ t.viewId = s.viewId) ?_
        (emits_installCommittedGaps _)) ?_)
      · have hcleared : Base g' (G.env r) { t with committedGaps := StdSet.empty } := { ht with }
        exact ((kept_installCommittedGaps m.committedgaps _).and
          (same_viewId_installCommittedGaps g' m.committedgaps _)).mono
          (fun _ _ _ ht' => ⟨ht'.1 hcleared, ht'.2.trans hid⟩) fun _ _ _ => trivial
      · rintro _ g'' t' - ⟨rfl, ht', hid'⟩
        exact spec_enterStartedView ht' (by rwa [hid']) hl

/-! ### Client requests -/

theorem spec_tryProcessClientRequest (h : Running g (G.env r) s) (m : RequestMessage) :
    G.Spec r g (tryProcessClientRequest (G.env r) m) s fun _ g' t => Running g' (G.env r) t := by
  refine spec_get_bind.mpr (spec_ite.mpr ⟨fun _ => .same h, fun hst => spec_ite.mpr ⟨fun _ => .same h, fun _ =>
    spec_ite.mpr ⟨fun _ => ?_, fun _ => spec_ite.mpr ⟨fun _ => .same h, fun _ => spec_ite.mpr ⟨fun _ => ?_, fun _ => ?_⟩⟩⟩⟩⟩)
  · exact .bind (spec_startViewChange h _ _) fun _ _ _ _ h' => .same h'.1
  all_goals
    have hin : InView g (G.env r) s := h.inView (by rw [not_not.mp hst]; decide)
  · exact .bind (spec_of_inView hin (.when inView_sendGapRequest) (.when emits_sendGapRequest))
      fun _ _ _ _ h' => .same h'
  · exact .bind (spec_of_inView hin (inView_of_grows (grows_processNextOperation _ _ _))
      (emits_processNextOperation _ _ _)) fun _ _ _ _ h' => .same h'

theorem spec_handleClientRequest (h : Running g (G.env r) s) (m : RequestMessage) :
    G.Spec r g (handleClientRequest (G.env r) m) s fun _ g' t => Running g' (G.env r) t := by
  refine spec_assert_bind.mpr ⟨fun _ => .bind (spec_tryProcessClientRequest h m) fun done g' t _ h' => ?_, fun _ => .same trivial⟩
  refine spec_of_kept h' (.when (relates_modify fun t ht => ?_)) (.when emits_modify)
  unfold Replica.addPendingRequest
  split_ifs
  · exact ht.congr rfl
  · exact ht

theorem spec_processPending : ∀ (requests : List RequestMessage) (g : Sent) (s : Replica), Running g (G.env r) s →
    G.Spec r g (processPending (G.env r) requests) s fun _ g' t => Running g' (G.env r) t
  | [], _, _, h => .same h
  | request :: rest, _, _, h => .bind (spec_tryProcessClientRequest h request) fun _ g' _ _ h' =>
      spec_when.mpr ⟨fun _ => spec_modify_bind.mpr (spec_processPending rest g' _ (h'.congr rfl)), fun _ => .same h'⟩

theorem spec_processPendingRequests (h : Running g (G.env r) s) :
    G.Spec r g (processPendingRequests (G.env r)) s fun _ g' t => Running g' (G.env r) t :=
  spec_get_bind.mpr (spec_when.mpr ⟨fun _ => spec_when.mpr ⟨fun _ => spec_modify_bind.mpr
    (spec_processPending _ g _ (h.congr rfl)), fun _ => .same h⟩, fun _ => .same h⟩)

/-! ### The runs -/

/-- A message is handled as the invariant has it. -/
theorem spec_receiveMessage (h : Running g (G.env r) s) {remote : Addr} {m : ToReplicaMessage}
    (hm : Good g ⟨remote, r, m⟩) :
    G.Spec r g (receiveMessage (G.env r) remote m) s fun _ g' t => Running g' (G.env r) t := by
  refine .bind (J := fun _ g' t => Running g' (G.env r) t) ?_ fun _ _ _ _ h' => spec_processPendingRequests h'
  cases m with
  | request m => exact spec_handleClientRequest h m
  | unloggedRequest op =>
    exact spec_of_kept h (kept_of_same (relates_get.bind fun _ => (same_modify fun _ => by rfl).bind fun _ =>
      relates_emit)) (emits_get.bind fun _ => emits_modify.bind fun _ => emits_emit trivial)
  | gapRequest m => exact spec_handleGapRequest h remote m
  | gapReply m => exact spec_handleGapReply h m
  | stateTransferRequest m => exact spec_handleStateTransferRequest h remote m hm
  | stateTransferReply m => exact spec_handleStateTransferReply h m hm
  | gapCommit m => exact spec_handleGapCommit h remote m
  | gapCommitReply m => exact spec_handleGapCommitReply h m
  | viewChangeRequest m => exact spec_handleViewChangeRequest h m
  | viewChange m => exact spec_handleViewChange h remote m hm
  | startView m => exact spec_handleStartView h m
  | startViewReply m => exact spec_handleStartViewReply h m
  | syncPrepareRequest m => exact spec_handleSyncPrepareRequest h remote m
  | syncPrepare m => exact spec_handleSyncPrepare h m
  | syncPrepareReply m => exact spec_handleSyncPrepareReply h m
  | syncCommit m => exact spec_handleSyncCommit h m

theorem spec_timeout (h : Running g (G.env r) s) {t : Timer} (ht : s.active t = true) :
    G.Spec r g (timeout (G.env r) t) s fun _ g' t => Running g' (G.env r) t := by
  cases t with
  | gapRequest =>
    have hin : InView g (G.env r) s := h.inView fun hs => by simp [h.requests hs] at ht
    exact spec_get_bind.mpr (spec_ite.mpr
      ⟨fun _ => spec_of_inView hin inView_startGapAgreement emits_startGapAgreement,
        fun _ => spec_of_inView hin inView_sendGapRequest emits_sendGapRequest⟩)
  | gapCommit => exact spec_of_kept h (kept_of_same same_sendGapCommit) emits_sendGapCommit
  | viewChange =>
    exact (spec_sendViewChange h (h.changing ht) fun hl => h.waiting ht hl).mono fun _ _ _ _ h => h.2
  | stateTransfer =>
    refine spec_sendStateTransferRequest h fun ha => ?_
    by_contra hl
    simp [(h.waiting ha hl).transfer] at ht
  | startView => exact spec_of_kept h (kept_of_same same_sendStartView) emits_sendStartView
  | sync =>
    exact spec_of_kept h (relates_get_bind fun s => by
        simp only [sat_bind, sat_assert, sat_modify, sat_emit, implies_true, and_true]
        exact fun _ h => h.sync _)
      (emits_get.bind fun _ => emits_assert.bind fun _ => emits_modify.bind fun _ => emits_emit trivial)
  | leaderSyncHeard =>
    exact spec_get_bind.mpr ((spec_startViewChange h _ _).mono fun _ _ _ _ h => h.1)

/-- Nothing has been sent. -/
def Sent.nothing : Sent := ⟨fun _ _ => none, fun _ _ => False, fun _ _ _ h => by cases h⟩

theorem running_initial (G : Group) (r : Nat) : Running Sent.nothing (G.env r) (Replica.initial (G.env r)) := by
  have hactive : ∀ t : Timer, t ≠ .sync → t ≠ .leaderSyncHeard → (Replica.initial (G.env r)).active t = false := by
    intro t h1 h2
    simp only [Replica.initial]
    split_ifs <;> simp [h1, h2]
  have hvc := hactive .viewChange (by decide) (by decide)
  refine ⟨⟨fun _ => le_refl _, fun h => absurd rfl h, fun _ _ h => (nomatch h), fun _ h => h.elim, fun h => ?_,
    fun h => (nomatch h), fun _ _ _ h => (nomatch h)⟩, fun h => ?_, fun h => (nomatch h)⟩
  all_goals
    rw [hvc] at h
    cases h

/-- The run lemma: the invariant holds of every state that a run reaches. -/
theorem holds_of_run {G : Group} {C : Sys → Event → Prop} {past : List Sys} {sys : Sys}
    (h : Run (system G) C past sys) : ∃ g, (invariant G).Holds G.config.n g sys := by
  refine h.invariant (I := fun _ sys => ∃ g, (invariant G).Holds G.config.n g sys)
    ⟨Sent.nothing, fun r _ _ => by exact running_initial G r, fun _ _ _ => trivial, fun _ hp => by cases hp⟩ ?_
  rintro _ sys e sys' - ⟨g, hg⟩ - hstep
  obtain ⟨r, m, he, hr, hlive, rfl⟩ := Net.Sys.step_eq_some hstep
  have hrun : Running g (G.env r) (sys.replica r) := hg.running r hr hlive
  have hspec : G.Spec r g m (sys.replica r) fun _ g' t => Running g' (G.env r) t := by
    rcases Net.Event.of_handler he with ⟨c, k, -, rfl⟩ | ⟨i, p, -, hp, rfl, rfl⟩ | ⟨t, -, ht, rfl⟩
    · exact spec_receiveMessage hrun (by cases k <;> trivial)
    · exact spec_receiveMessage hrun (hg.packet p (List.mem_of_getElem? hp))
    · exact spec_timeout hrun ht
  obtain ⟨g', -, hg'⟩ := Net.GhostInvariant.step hg hspec
  exact ⟨g', hg'⟩

/-! ### State transfer -/

/-- In every state that a run reaches: a reply that covers the slots that a replica lacks is installed, each slot
    once and the committed gaps as NOOPs, if and only if the log ends with the last operation and no committed gap
    lies among the slots after the first one. -/
theorem installs_iff (G : Group) {past : List Sys} {sys : Sys} (h : Run (system G) (fun _ _ => True) past sys)
    {r : Nat} (hr : r < G.config.n) (hlive : sys.stopped r = false) {m : StateTransferReplyMessage}
    (hm : Covers (sys.replica r) m) :
    Installs (G.env r) (sys.replica r) m ↔ (sys.replica r).Whole ∧ ¬ InnerGap (sys.replica r) m := by
  obtain ⟨g, hg⟩ := holds_of_run h
  exact installs_iff_of_covers hm fun hw => (hg.running r hr hlive).toBase.sound hw

/-- Replica 2 has missed the only request there is. -/
theorem installs_iff_one : ∃ past sys, Run (system threeReplicas) (fun _ _ => True) past sys ∧
    Installs (threeReplicas.env 2) (sys.replica 2) (firstEntries 1) := by
  obtain ⟨past, sys, hr, hsys⟩ := Run.exists_of_exec (system threeReplicas) (fun _ _ => True)
    [.client 0 0 (.request 0 0), .timeout 0 .sync, .deliver 1]
    (fun sys => sys.stopped 2 = false ∧ (sys.replica 2).viewId = (0, 0) ∧ (sys.replica 2).lastOp = 0 ∧
      (sys.replica 2).log.entries.length = 0 ∧ (sys.replica 2).committedGaps.toList = []) (by decide +kernel)
  obtain ⟨hlive, hid, hlast, hlen, hgaps⟩ := of_decide_eq_true hsys
  obtain ⟨hsess, hview⟩ := Prod.mk.inj hid
  obtain ⟨hnum, hcount⟩ := dumped_firstEntries 1
  refine ⟨past, sys, hr, (installs_iff threeReplicas hr (by decide) hlive
    ⟨hsess.symm, hview.symm, by rw [hlast]; decide, by rw [hlast]; decide, hnum, hcount⟩).mpr ⟨?_, ?_⟩⟩
  · rw [Replica.Whole, hlen, hlast]
  · rintro ⟨x, hx, -⟩
    rw [hgaps] at hx
    cases hx

/-- The first entry, and a NOOP that the leader has had everybody log after it. -/
def entryThenGap : StateTransferReplyMessage :=
  { sessnum := 0, view := 0, opBegin := 1, opEnd := 3
    entries := [firstEntry 1, { firstEntry 2 with state := .noop, request := noopRequest }] }

/-- A SyncPrepare tells replica 2 of the gap, and the reply that it has asked for brings both entries: its handler
    is stopped at the second one. -/
theorem known_gap_stops : ∃ past sys, Run (system threeReplicas) (fun _ _ => True) past sys ∧
    sys.stopped 2 = false ∧
    (∃ p ∈ sys.net, p.dst = 2 ∧ p.msg = .stateTransferReply entryThenGap) ∧
    Covers (sys.replica 2) entryThenGap ∧ ¬ Installs (threeReplicas.env 2) (sys.replica 2) entryThenGap := by
  obtain ⟨past, sys, hr, hsys⟩ := Run.exists_of_exec (system threeReplicas) (fun _ _ => True)
    [.client 0 0 (.request 0 0), .client 0 0 (.request 0 2), .timeout 0 .gapRequest, .timeout 0 .sync, .deliver 5,
      .deliver 6]
    (fun sys => sys.stopped 2 = false ∧ (∃ p ∈ sys.net, p.dst = 2 ∧ p.msg = .stateTransferReply entryThenGap) ∧
      (sys.replica 2).viewId = (0, 0) ∧ (sys.replica 2).lastOp = 0 ∧
      (handleStateTransferReply (threeReplicas.env 2) entryThenGap (sys.replica 2)).1 = none) (by decide +kernel)
  obtain ⟨hlive, hnet, hid, hlast, hstop⟩ := of_decide_eq_true hsys
  obtain ⟨hsess, hview⟩ := Prod.mk.inj hid
  refine ⟨past, sys, hr, hlive, hnet, ⟨hsess.symm, hview.symm, by rw [hlast]; decide, by rw [hlast]; decide, ?_, rfl⟩, ?_⟩
  · exact Log.numberedFrom_cons.mpr ⟨rfl, Log.numberedFrom_cons.mpr ⟨rfl, Log.numberedFrom_nil _⟩⟩
  · rintro ⟨s', o, extra, hrun, -⟩
    rw [hrun] at hstop
    cases hstop

end Dsnet.NOPaxos
