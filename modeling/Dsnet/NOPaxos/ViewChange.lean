import Dsnet.NOPaxos.Rewind
import Dsnet.NOPaxos.Transfer

/-! What holds of the replicas and the messages in every run of a NOPaxos group, while views change.

    A replica that is not the leader sends one ViewChange message for a view ID, however often it sends it: until
    it enters a view its log only changes by state transfer, for which it does not ask as long as it sends the
    message. So the gaps that a leader has installed when it merges the logs are those of messages that it
    still has when it merges them again. `Sent` records the messages. -/

namespace Dsnet.NOPaxos
open Handler

variable {E : Env} {s s' : Replica}

/-! ### The messages that have been sent -/

/-- What the replicas have sent: the ViewChange message of a replica for a view ID, and whether the replica has
    asked for a state transfer in it. -/
structure Sent where
  viewChange : Nat → Nat × Nat → Option ViewChangeMessage
  asked : Nat → Nat × Nat → Prop
  gaps_le : ∀ r v m, viewChange r v = some m → ∀ x ∈ m.committedgaps, x ≤ m.lastop

/-- A step of replica `r` adds to what it has sent. -/
structure Extends (r : Nat) (g g' : Sent) : Prop where
  others : ∀ k, k ≠ r → g'.viewChange k = g.viewChange k ∧ g'.asked k = g.asked k
  viewChange : ∀ k v m, g.viewChange k v = some m → g'.viewChange k v = some m
  asked : ∀ k v, g.asked k v → g'.asked k v

theorem Extends.refl (r : Nat) (g : Sent) : Extends r g g :=
  ⟨fun _ _ => ⟨rfl, rfl⟩, fun _ _ _ h => h, fun _ _ h => h⟩

theorem Extends.trans {r : Nat} {g g' g'' : Sent} (h : Extends r g g') (h' : Extends r g' g'') :
    Extends r g g'' where
  others k hk := ⟨(h'.others k hk).1.trans (h.others k hk).1, (h'.others k hk).2.trans (h.others k hk).2⟩
  viewChange k v m hm := h'.viewChange k v m (h.viewChange k v m hm)
  asked k v ha := h'.asked k v (h.asked k v ha)

/-- A packet is of a message that is recorded. -/
def Good (g : Sent) (p : Net.Packet ToReplicaMessage) : Prop :=
  match p.msg with
  | .viewChange m => g.viewChange m.replicaidx (m.sessnum, m.view) = some m
  | .stateTransferRequest m => ∀ j, p.src = .replica j → g.asked j (m.sessnum, m.view)
  | .stateTransferReply m => g.asked p.dst (m.sessnum, m.view)
  | _ => True

theorem Good.mono {r : Nat} {g g' : Sent} {p : Net.Packet ToReplicaMessage} (hg : Extends r g g')
    (h : Good g p) : Good g' p := by
  obtain ⟨src, dst, msg⟩ := p
  cases msg with
  | viewChange m => exact hg.viewChange _ _ _ h
  | stateTransferRequest m => exact fun j hj => hg.asked _ _ (h j hj)
  | stateTransferReply m => exact hg.asked _ _ h
  | _ => trivial

/-- A message of which nothing is recorded. -/
def Plain : ToReplicaMessage → Prop
  | .viewChange _ | .stateTransferRequest _ | .stateTransferReply _ => False
  | _ => True

/-- An output that is no such message. -/
def PlainOutput : Output → Prop
  | .toReplica _ m | .toAll m | .toAddr _ m => Plain m
  | .toClient _ _ => True

theorem good_of_plain {g : Sent} {n r : Nat} {x : Output} (hx : PlainOutput x) :
    ∀ p ∈ Net.packets n r x, Good g p := by
  have hgood : ∀ {src : Addr} {dst : Nat} {m : ToReplicaMessage}, Plain m → Good g ⟨src, dst, m⟩ := by
    intro src dst m hm
    cases m <;> trivial
  intro p hp
  cases x with
  | toReplica i m =>
    obtain rfl := List.mem_singleton.mp hp
    exact hgood hx
  | toAll m =>
    obtain ⟨i, -, rfl⟩ := List.mem_map.mp hp
    exact hgood hx
  | toAddr addr m =>
    cases addr with
    | replica i =>
      obtain rfl := List.mem_singleton.mp hp
      exact hgood hx
    | client c => cases hp
  | toClient addr m => cases hp

/-! ### What holds of a replica -/

/-- What a replica that is not the leader may say of its log in a ViewChange message: what it has said before. -/
structure Awaits (g : Sent) (E : Env) (s : Replica) : Prop where
  gaps_le : ∀ x ∈ s.committedGaps.toList, x ≤ s.lastOp
  not_asked : ¬ g.asked E.replicaIdx s.viewId
  recorded : ∀ m, g.viewChange E.replicaIdx s.viewId = some m → m = viewChangeMessage E s
  transfer : s.active .stateTransfer = false

/-- A message that the leader has got for its view names a log that reaches slot `x`, and is of the view in which
    the leader was last in normal operation, or of a later one. -/
def Reported (s : Replica) (x : Nat) : Prop :=
  ∃ k m, (k, m) ∈ (s.viewChangeQuorum.messages s.viewId).toList ∧ x ≤ m.lastop ∧
    ((m.lastnormalsessnum = s.lastNormalSessnum ∧ m.lastnormalview = s.lastNormalView) ∨
      s.isBehind m.lastnormalsessnum m.lastnormalview)

/-- What holds of a replica also in the middle of a step. -/
structure Base (g : Sent) (E : Env) (s : Replica) : Prop where
  synced : s.Whole → s.Synced
  callback : s.stateTransferOpEnd ≠ 0 → Callable E s s.stateTransferCallback
  viewChange_le : ∀ v m, g.viewChange E.replicaIdx v = some m → v ≤ s.viewId
  asked_le : ∀ v, g.asked E.replicaIdx v → v ≤ s.viewId
  changing : s.active .viewChange = true → s.status = .viewChange
  requests : s.status = .viewChange → s.active .gapRequest = false
  quorum : ∀ v k m, (k, m) ∈ (s.viewChangeQuorum.messages v).toList → g.viewChange k v = some m

/-- The committed gaps of a leader that changes views lie in its log, or have been reported. -/
def Merging (E : Env) (s : Replica) : Prop :=
  s.status = .viewChange → amLeader E s → ∀ x ∈ s.committedGaps.toList, x ≤ s.lastOp ∨ Reported s x

/-- What holds of a replica between its steps. -/
structure Running (g : Sent) (E : Env) (s : Replica) : Prop extends Base g E s where
  waiting : s.active .viewChange = true → ¬ amLeader E s → Awaits g E s
  merging : Merging E s

theorem Base.sound {g : Sent} (h : Base g E s) (hw : s.Whole) : s.Sound E := ⟨hw, h.synced hw, h.callback⟩

/-- A replica that does not change views. -/
structure InView (g : Sent) (E : Env) (s : Replica) : Prop extends Base g E s where
  status : s.status ≠ .viewChange

theorem InView.running {g : Sent} (h : InView g E s) : Running g E s :=
  { h.toBase with
    waiting := fun ha => absurd (h.changing ha) h.status
    merging := fun hs => absurd hs h.status }

theorem Running.inView {g : Sent} (h : Running g E s) (hs : s.status ≠ .viewChange) : InView g E s :=
  { h.toBase with status := hs }

/-- What the invariants depend on. -/
def Replica.outline (s : Replica) :=
  (s.status, s.viewId, s.lastNormalSessnum, s.lastNormalView, s.lastOp, s.log.entries.length, s.committedGaps,
    s.leaderLastSyncPreparePoint, s.stateTransferOpEnd, s.stateTransferCallback, s.viewChangeQuorum,
    s.active .viewChange, s.active .gapRequest, s.active .stateTransfer)

theorem Base.congr {g : Sent} (h : Base g E s) (ho : s'.outline = s.outline) : Base g E s' := by
  simp only [Replica.outline, Replica.viewId, Prod.mk.injEq] at ho
  obtain ⟨hst, ⟨hsess, hview⟩, -, -, hlast, hlen, -, hpoint, hend, hcb, hq, hvc, hgr, -⟩ := ho
  refine ⟨fun hw => ?_, fun hnz => ?_, fun v m hm => ?_, fun v ha => ?_, fun ha => ?_, fun hs => ?_, ?_⟩
  · rw [Replica.Synced, hpoint, hlast]
    exact h.synced (by rwa [Replica.Whole, hlen, hlast] at hw)
  · rw [hcb]
    exact (h.callback (by rwa [hend] at hnz)).congr hview hend
  · rw [Replica.viewId, hsess, hview]
    exact h.viewChange_le v m hm
  · rw [Replica.viewId, hsess, hview]
    exact h.asked_le v ha
  · rw [hst]
    exact h.changing (by rwa [hvc] at ha)
  · rw [hgr]
    exact h.requests (by rwa [hst] at hs)
  · rw [hq]
    exact h.quorum

theorem InView.congr {g : Sent} (h : InView g E s) (ho : s'.outline = s.outline) : InView g E s' where
  toBase := h.toBase.congr ho
  status := by
    rw [show s'.status = s.status from congrArg Prod.fst ho]
    exact h.status

theorem Running.congr {g : Sent} (h : Running g E s) (ho : s'.outline = s.outline) : Running g E s' := by
  refine { h.toBase.congr ho with waiting := ?_, merging := ?_ }
  all_goals
    simp only [Replica.outline, Replica.viewId, Prod.mk.injEq] at ho
    obtain ⟨hst, ⟨hsess, hview⟩, hns, hnv, hlast, -, hgaps, -, -, -, hq, hvc, -, htr⟩ := ho
  · intro ha hl
    obtain ⟨hle, hno, hrec, htrans⟩ := h.waiting (by rwa [hvc] at ha) (by rwa [amLeader, hview] at hl)
    refine ⟨by rwa [hgaps, hlast], by rwa [Replica.viewId, hsess, hview], ?_, by rwa [htr]⟩
    simp only [viewChangeMessage, Replica.viewId, hsess, hview, hns, hnv, hlast, hgaps]
    exact hrec
  · intro hs hl
    simp only [Reported, Replica.isBehind, Replica.viewId, hsess, hview, hns, hnv, hlast, hgaps, hq]
    exact h.merging (by rwa [hst] at hs) (by rwa [amLeader, hview] at hl)

/-! ### Executing and entering a view -/

variable {g : Sent}

theorem outline_of_unexecuted (h : s'.unexecuted = s.unexecuted) : s'.outline = s.outline := by
  rw [unexecuted_eq h]
  rfl

theorem same_executeUptoOp (opnum : Nat) : Relates (Same Replica.outline) (executeUptoOp E opnum) := fun s =>
  (executeUptoOp_spec s opnum).mono (fun _ _ _ h => outline_of_unexecuted h) fun _ _ _ => trivial

theorem same_sendSyncCommit : Relates (Same Replica.outline) (sendSyncCommit E) :=
  relates_get.bind fun _ => relates_assert.bind fun _ => relates_emit

theorem same_commitUptoOp (opnum : Nat) : Relates (Same Replica.outline) (commitUptoOp E opnum) :=
  relates_get.bind fun _ => .ite relates_pure <| relates_assert.bind fun _ =>
    (same_modify fun _ => by rfl).bind fun _ => same_sendSyncCommit.when.bind fun _ => same_executeUptoOp opnum

theorem same_processSyncPrepare (syncpoint : Nat) :
    Relates (Same Replica.outline) (processSyncPrepare E syncpoint) :=
  relates_get.bind fun _ => relates_assert.bind fun _ => .ite
    ((same_commitUptoOp _).bind fun _ => same_modify fun _ => by rfl) relates_emit

theorem same_sendStartView : Relates (Same Replica.outline) (sendStartView E) :=
  relates_get.bind fun _ => relates_assert.bind fun _ => relates_emit.bind fun _ => same_modify fun _ => by rfl

theorem same_sendStartViewReply : Relates (Same Replica.outline) (sendStartViewReply E) :=
  relates_get.bind fun _ => relates_assert.bind fun _ => relates_assert.bind fun _ => relates_emit

/-- A sync point that is the last operation. -/
theorem Running.sync (h : Running g E s) (gaps : StdSet Nat) :
    Running g E { s with leaderLastSyncPreparePoint := s.lastOp, leaderLastSyncCommittedGaps := gaps } :=
  { h with
    synced := fun _ => le_refl s.lastOp
    waiting := fun ha hl => { h.waiting ha hl with } }

theorem InView.sync (h : InView g E s) (gaps : StdSet Nat) :
    InView g E { s with leaderLastSyncPreparePoint := s.lastOp, leaderLastSyncCommittedGaps := gaps } :=
  { h with synced := fun _ => le_refl s.lastOp }

theorem inView_entered (h : Base g E s) {newsessnum newview : Nat} (hsess : s.sessnum ≤ newsessnum)
    (hview : s.view ≤ newview) : InView g E (s.entered newsessnum newview) where
  synced := h.synced
  callback hnz := absurd rfl hnz
  viewChange_le v m hm := (h.viewChange_le v m hm).trans ⟨hsess, hview⟩
  asked_le v ha := (h.asked_le v ha).trans ⟨hsess, hview⟩
  changing ha := by cases ha
  requests hs := by cases hs
  quorum v k m hm := by simp [Replica.entered, Replica.clearTimeoutAndQuorums] at hm
  status hs := by cases hs

/-- After it has entered a view a replica does not change views, and its log is the same. -/
theorem enterView_inView (s : Replica) (newsessnum newview : Nat) :
    Sat (enterView E newsessnum newview) s
      (fun _ s' _ => (Base g E s → InView g E s') ∧ s'.status = .normal ∧ s'.viewId = (newsessnum, newview) ∧
        s'.lastOp = s.lastOp ∧ s'.committedGaps = s.committedGaps)
      fun _ _ => True := by
  have hdone {t : Replica} (ht : t.outline = (s.entered newsessnum newview).outline) : t.status = .normal ∧
      t.viewId = (newsessnum, newview) ∧ t.lastOp = s.lastOp ∧ t.committedGaps = s.committedGaps := by
    simp only [Replica.outline, Prod.mk.injEq] at ht
    obtain ⟨hst, hid, -, -, hlast, -, hgaps, -⟩ := ht
    exact ⟨hst, hid, hlast, hgaps⟩
  simp only [enterView, sat_bind, sat_get, sat_assert, sat_modify, sat_ite, implies_true, and_true]
  refine fun hsess hview => ⟨fun _ => ?_, fun _ => ?_⟩
  · refine (same_executeUptoOp _).sat (fun _ t _ ht => ?_) fun _ _ => trivial
    refine fun _ => (same_sendStartView _).mono (fun _ t' _ ht' => ⟨fun h => ?_, ?_⟩) fun _ _ _ => trivial
    · have hin : InView g E (t.start .sync) := (inView_entered h hsess hview).congr ht
      exact (hin.sync _).congr ht'
    · obtain ⟨hst, hid, hlast, hgaps⟩ := hdone ht
      simp only [Same, Replica.outline, Prod.mk.injEq] at ht'
      obtain ⟨hst', hid', -, -, hlast', -, hgaps', -⟩ := ht'
      exact ⟨hst'.trans hst, hid'.trans hid, hlast'.trans hlast, hgaps'.trans hgaps⟩
  · exact (same_sendStartViewReply _).mono (fun _ t _ ht => ⟨fun h => (inView_entered h hsess hview).congr ht, hdone ht⟩)
      fun _ _ _ => trivial

/-! ### Logging -/

/-- What logging does to a replica, in whatever state it is, with committed gaps of the kind `p`. -/
structure Grows (g : Sent) (E : Env) (p : Nat → Prop) (s s' : Replica) : Prop where
  base : Base g E s → Base g E s'
  lastOp : s.lastOp ≤ s'.lastOp
  gaps : ∀ x ∈ s'.committedGaps.toList, x ∈ s.committedGaps.toList ∨ x ≤ s'.lastOp ∨ p x
  viewId : s'.viewId = s.viewId
  changing : s'.status = .viewChange → s.status = .viewChange ∧ s'.viewChangeQuorum = s.viewChangeQuorum ∧
    s'.lastNormalSessnum = s.lastNormalSessnum ∧ s'.lastNormalView = s.lastNormalView ∧
    (s'.active .viewChange = true → s.active .viewChange = true)

variable {p : Nat → Prop}

instance : Std.Refl (Grows g E p) :=
  ⟨fun _ => ⟨fun h => h, le_refl _, fun _ h => Or.inl h, rfl, fun h => ⟨h, rfl, rfl, rfl, fun h => h⟩⟩⟩

instance : IsTrans Replica (Grows g E p) where
  trans s s' s'' h h' := by
    refine ⟨fun hb => h'.base (h.base hb), h.lastOp.trans h'.lastOp, fun x hx => ?_, h'.viewId.trans h.viewId,
      fun hs => ?_⟩
    · rcases h'.gaps x hx with hx | hx
      · exact (h.gaps x hx).imp_right fun hx => hx.imp_left fun hle => hle.trans h'.lastOp
      · exact Or.inr hx
    · obtain ⟨hs', hq', hns', hnv', ha'⟩ := h'.changing hs
      obtain ⟨hs, hq, hns, hnv, ha⟩ := h.changing hs'
      exact ⟨hs, hq'.trans hq, hns'.trans hns, hnv'.trans hnv, fun h => ha (ha' h)⟩

theorem Grows.of_same (ho : s'.outline = s.outline) : Grows g E p s s' := by
  have hbase (h : Base g E s) : Base g E s' := h.congr ho
  simp only [Replica.outline, Prod.mk.injEq] at ho
  obtain ⟨hst, hid, hns, hnv, hlast, -, hgaps, -, -, -, hq, hvc, -, -⟩ := ho
  refine ⟨hbase, hlast.ge, fun x hx => Or.inl (by rwa [hgaps] at hx), hid, fun hs => ⟨by rwa [hst] at hs, hq, hns, hnv, ?_⟩⟩
  rw [hvc]
  exact id

theorem Grows.of_inView (hin : Base g E s → InView g E s') (hs : s'.status ≠ .viewChange)
    (hid : s'.viewId = s.viewId) (hlast : s'.lastOp = s.lastOp) (hgaps : s'.committedGaps = s.committedGaps) :
    Grows g E p s s' :=
  ⟨fun h => (hin h).toBase, hlast.ge, fun x hx => Or.inl (by rwa [hgaps] at hx), hid, fun h => absurd h hs⟩

/-- A replica that changes views goes on doing so, or has entered the view. -/
theorem Grows.merging (h : Grows g E p s s') (hm : Merging E s) (hp : ∀ x, p x → Reported s x) : Merging E s' := by
  intro hs hl x hx
  obtain ⟨hs', hq, hns, hnv, -⟩ := h.changing hs
  have hview : s'.view = s.view := congrArg Prod.snd h.viewId
  have hreported {x : Nat} (hr : Reported s x) : Reported s' x := by
    simpa only [Reported, Replica.isBehind, hq, hns, hnv, h.viewId] using hr
  rcases h.gaps x hx with hx | hx | hx
  · exact (hm hs' (by rwa [amLeader, hview] at hl) x hx).imp (fun hle => hle.trans h.lastOp) hreported
  · exact Or.inl hx
  · exact Or.inr (hreported (hp x hx))

theorem Grows.inView (h : Grows g E p s s') (hs : InView g E s) : InView g E s' where
  toBase := h.base hs.toBase
  status hst := hs.status (h.changing hst).1

/-- A replica that sends no ViewChange message may log what it likes. -/
theorem Grows.running (h : Grows g E (fun _ => False) s s') (hs : Running g E s)
    (hfree : s.active .viewChange = true → amLeader E s) : Running g E s' :=
  { h.base hs.toBase with
    waiting := fun ha hl => by
      obtain ⟨-, -, -, -, hact⟩ := h.changing ((h.base hs.toBase).changing ha)
      refine absurd (hfree (hact ha)) ?_
      rwa [amLeader, show s'.view = s.view from congrArg Prod.snd h.viewId] at hl
    merging := h.merging hs.merging fun _ hx => hx.elim }

theorem grows_of_same {m : NOPaxosHandler Unit} (h : Relates (Same Replica.outline) m) : Relates (Grows g E p) m :=
  h.mono fun _ _ ho => .of_same ho

theorem grows_answerOperation (request : Request) (vs : Viewstamp) (state : LogEntryState) :
    Relates (Grows g E p) (answerOperation E request vs state) := by
  refine .ite (relates_modify fun s => ?_)
    (.when (.ite (grows_of_same (same_executeUptoOp _)) relates_emit))
  refine ⟨fun h => { h with }, le_refl _, fun x hx => ?_, rfl, fun h => ⟨h, rfl, rfl, rfl, fun h => h⟩⟩
  rcases StdSet.mem_insert.mp hx with rfl | hx
  · exact Or.inr (Or.inl (le_refl _))
  · exact Or.inl hx

theorem grows_logOperation (request : Request) (vs : Viewstamp) (state : LogEntryState) :
    Relates (Grows g E p) (logOperation E request vs state) := by
  refine relates_get_bind fun s => ?_
  simp only [sat_bind, sat_assert, sat_modify, sat_ofOption, implies_true, and_true]
  intro hvs log hlog
  obtain ⟨hop, hent⟩ := Log.append_eq_some.mp hlog
  -- the entry finds its place only when the log ends with the last operation
  have hwhole : s.Whole := by
    simp only [LogEntry.opnum] at hop
    simp only [Replica.Whole]
    omega
  have hlogged : Grows g E p s { s with lastOp := vs.opnum, nextMsgnum := vs.msgnum + 1, log := log } := by
    refine ⟨fun h => ?_, by simp only; omega, fun _ h => Or.inl h, rfl, fun h => ⟨h, rfl, rfl, rfl, fun h => h⟩⟩
    refine { h with synced := fun _ => ?_ }
    have := h.synced hwhole
    simp only [Replica.Synced] at this ⊢
    omega
  have hstop : Relates (Grows g E p) (when (s.active .gapRequest = true) <| modify fun s : Replica =>
      { s.stop .gapRequest with gapReplyQuorum := s.gapReplyQuorum.clear } : NOPaxosHandler Unit) :=
    .when <| relates_modify fun s => by
      refine ⟨fun h => ?_, le_refl _, fun _ h => Or.inl h, rfl, fun h => ⟨h, rfl, rfl, rfl, fun h => by
        simpa [Replica.stop] using h⟩⟩
      exact { h with
        changing := fun ha => h.changing (by simpa [Replica.stop] using ha)
        requests := fun _ => by simp [Replica.stop] }
  exact sat_bind.mp <| (hstop.bind fun _ => grows_answerOperation request vs _).sat
    (fun _ t _ ht => IsTrans.trans (r := Grows g E p) _ _ _ hlogged ht) fun _ _ => trivial

theorem grows_completeStateTransfer (opnum : Nat) : Relates (Grows g E p) (completeStateTransfer E opnum) := by
  refine relates_get_bind fun s => ?_
  simp only [sat_when, sat_bind, sat_modify]
  refine ⟨fun _ => ?_, fun _ => Std.Refl.refl (r := Grows g E p) s⟩
  have hstop : Grows g E p s (s.stop .stateTransfer) :=
    ⟨fun h => { h with
        changing := fun ha => h.changing (by simpa [Replica.stop] using ha)
        requests := fun hs => by simpa [Replica.stop] using h.requests hs },
      le_refl _, fun _ h => Or.inl h, rfl, fun h => ⟨h, rfl, rfl, rfl, fun h => by simpa [Replica.stop] using h⟩⟩
  cases s.stateTransferCallback with
  | none => exact trivial
  | some cb =>
    cases cb with
    | enterView =>
      refine (enterView_inView (g := g) _ _ _).mono (fun _ t _ ht => ?_) fun _ _ _ => trivial
      obtain ⟨hin, hst, hid, hlast, hgaps⟩ := ht
      exact .of_inView (fun h => hin (hstop.base h)) (by rw [hst]; decide) hid hlast hgaps
    | processSyncPrepare syncpoint =>
      exact (grows_of_same (same_processSyncPrepare syncpoint)).sat
        (fun _ t _ ht => IsTrans.trans (r := Grows g E p) _ _ _ hstop ht) fun _ _ => trivial

theorem grows_processOperation (request : Request) (vs : Viewstamp) (state : LogEntryState) :
    Relates (Grows g E p) (processOperation E request vs state) :=
  (grows_logOperation request vs state).bind fun _ => grows_completeStateTransfer _

theorem grows_processGaps (request : Request) : ∀ (n : Nat) (vs : Viewstamp),
    Relates (Grows g E p) (processGaps E request n vs)
  | 0, _ => relates_pure
  | n + 1, _ => relates_get.bind fun _ => .when <| (grows_processOperation request _ _).bind fun _ =>
      grows_processGaps request n _

theorem grows_processNextOperation (request : Request) (vs : Viewstamp) (state : LogEntryState) :
    Relates (Grows g E p) (processNextOperation E request vs state) :=
  (grows_processOperation request vs state).bind fun _ => relates_get.bind fun _ => grows_processGaps request _ _

/-! ### Without regard to the view changes -/

theorem kept_of_grows {m : NOPaxosHandler Unit} (h : Relates (Grows g E fun _ => False) m) : Relates (Kept (Base g E)) m :=
  h.mono fun _ _ h => h.base

theorem inView_of_grows {m : NOPaxosHandler Unit} (h : Relates (Grows g E fun _ => False) m) : Relates (Kept (InView g E)) m :=
  h.mono fun _ _ h => h.inView

theorem inView_of_same {m : NOPaxosHandler Unit} (h : Relates (Same Replica.outline) m) :
    Relates (Kept (InView g E)) m := h.mono fun _ _ ho h => h.congr ho

theorem kept_of_same {m : NOPaxosHandler Unit} (h : Relates (Same Replica.outline) m) :
    Relates (Kept (Running g E)) m := h.mono fun _ _ ho h => h.congr ho

/-- What logging, a new committed gap and a new state of an entry leave as it is. -/
theorem relates_installGap {R : Replica → Replica → Prop} [Std.Refl R] [IsTrans Replica R] (gap : Nat)
    (hgap : ∀ s, R s { s with committedGaps := s.committedGaps.insert gap })
    (hstatus : ∀ s k st, R s { s with log := s.log.setStatus k st })
    (hlog : ∀ request vs state, Relates R (processNextOperation E request vs state)) :
    Relates R (installGap E gap) :=
  relates_get.bind fun _ => .ite relates_pure <| (relates_modify fun _ => hgap _).bind fun _ =>
    (hlog _ _ _).when.bind fun _ => relates_get.bind fun _ => .when <| relates_ofOption.bind fun _ => .when <|
      relates_assert.bind fun _ => relates_assert.bind fun _ => relates_modify fun _ => hstatus _ _ _

theorem Base.setGap (h : Base g E s) (gap : Nat) :
    Base g E { s with committedGaps := s.committedGaps.insert gap } := { h with }

theorem Base.setStatus (h : Base g E s) (k : Nat) (st : LogEntryState) :
    Base g E { s with log := s.log.setStatus k st } :=
  { h with synced := fun hw => h.synced (by rwa [Replica.Whole, Log.length_entries_setStatus] at hw) }

theorem InView.setGap (h : InView g E s) (gap : Nat) :
    InView g E { s with committedGaps := s.committedGaps.insert gap } := ⟨h.toBase.setGap gap, h.status⟩

theorem InView.setStatus (h : InView g E s) (k : Nat) (st : LogEntryState) :
    InView g E { s with log := s.log.setStatus k st } := ⟨h.toBase.setStatus k st, h.status⟩

theorem kept_installCommittedGaps (gaps : List Nat) : Relates (Kept (Base g E)) (installCommittedGaps E gaps) :=
  .forEach (fun gap => relates_installGap gap (fun _ h => h.setGap gap) (fun _ k st h => h.setStatus k st)
    fun _ _ _ => kept_of_grows (grows_processNextOperation _ _ _)) gaps

theorem inView_installCommittedGaps (gaps : List Nat) :
    Relates (Kept (InView g E)) (installCommittedGaps E gaps) :=
  .forEach (fun gap => relates_installGap gap (fun _ h => h.setGap gap) (fun _ k st h => h.setStatus k st)
    fun _ _ _ => inView_of_grows (grows_processNextOperation _ _ _)) gaps

theorem same_viewId_installCommittedGaps (g : Sent) (gaps : List Nat) :
    Relates (Same Replica.viewId) (installCommittedGaps E gaps) :=
  .forEach (fun gap => relates_installGap gap (fun _ => rfl) (fun _ _ _ => rfl)
    fun _ _ _ => (grows_processNextOperation (g := g) (p := fun _ => False) _ _ _).mono fun _ _ h => h.viewId) gaps

/-- Gaps of the kind `p` are installed. -/
theorem grows_installCommittedGaps {gaps : List Nat} (hp : ∀ gap ∈ gaps, p gap) :
    Relates (Grows g E p) (installCommittedGaps E gaps) :=
  .forEach_mem fun gap hgap => relates_installGap gap
    (fun s => ⟨fun h => h.setGap gap, le_refl _, fun x hx => by
      rcases StdSet.mem_insert.mp hx with rfl | hx
      · exact Or.inr (Or.inr (hp x hgap))
      · exact Or.inl hx, rfl, fun h => ⟨h, rfl, rfl, rfl, fun h => h⟩⟩)
    (fun s k st => ⟨fun h => h.setStatus k st, le_refl _, fun _ h => Or.inl h, rfl,
      fun h => ⟨h, rfl, rfl, rfl, fun h => h⟩⟩)
    fun _ _ _ => grows_processNextOperation _ _ _

/-- A log that has been rewound is not whole. -/
theorem kept_rewindLogToOpnum (opnum : Nat) : Relates (Kept (Base g E)) (rewindLogToOpnum opnum) := fun s =>
  (rewindLogToOpnum_spec s opnum).mono (fun _ s' _ h => by
    obtain ⟨-, log, hent, rfl, hpos, -⟩ := h
    refine fun hb => { hb with synced := fun hw => ?_ }
    simp only [Replica.Whole, hent, List.length_take] at hw
    omega) fun _ _ h => h

/-! ### What the handlers send -/

theorem emits_replyExecuted (op : Nat) (entry : LogEntry) (reply : String) :
    Emits PlainOutput (replyExecuted E op entry reply) := .when (emits_emit trivial)

theorem emits_executeRequest (op : Nat) (entry : LogEntry) : Emits PlainOutput (executeRequest E op entry) :=
  emits_get.bind fun _ => emits_modify.bind fun _ =>
    .bind (emits_get.bind fun _ => emits_assert.bind fun _ => emits_modify) fun _ => emits_replyExecuted _ _ _

theorem emits_executeNext : Emits PlainOutput (executeNext E) :=
  emits_get.bind fun s => emits_assert.bind fun _ => emits_ofOption.bind fun entry => emits_modify.bind fun _ =>
    .when <| by
      cases s.clientTable entry.request.clientid with
      | none => exact emits_executeRequest _ _
      | some cte => exact .ite emits_pure (.ite (emits_replyExecuted _ _ _) (emits_executeRequest _ _))

theorem emits_executeUptoOp (opnum : Nat) : Emits PlainOutput (executeUptoOp E opnum) :=
  emits_get.bind fun _ => .ite emits_pure <| emits_assert.bind fun _ => .iterate emits_executeNext _

theorem emits_commitUptoOp (opnum : Nat) : Emits PlainOutput (commitUptoOp E opnum) :=
  emits_get.bind fun _ => .ite emits_pure <| emits_assert.bind fun _ => emits_modify.bind fun _ =>
    .bind (.when (emits_get.bind fun _ => emits_assert.bind fun _ => emits_emit trivial)) fun _ =>
      emits_executeUptoOp _

theorem emits_sendStartView : Emits PlainOutput (sendStartView E) :=
  emits_get.bind fun _ => emits_assert.bind fun _ => (emits_emit trivial).bind fun _ => emits_modify

theorem emits_sendStartViewReply : Emits PlainOutput (sendStartViewReply E) :=
  emits_get.bind fun _ => emits_assert.bind fun _ => emits_assert.bind fun _ => emits_emit trivial

theorem emits_enterView (newsessnum newview : Nat) : Emits PlainOutput (enterView E newsessnum newview) :=
  emits_get.bind fun _ => emits_assert.bind fun _ => emits_assert.bind fun _ => emits_modify.bind fun _ =>
    emits_get.bind fun _ => .ite
      ((emits_executeUptoOp _).bind fun _ => emits_modify.bind fun _ => emits_get.bind fun _ =>
        emits_assert.bind fun _ => emits_modify.bind fun _ => emits_sendStartView)
      (emits_modify.bind fun _ => emits_sendStartViewReply)

theorem emits_processSyncPrepare (syncpoint : Nat) : Emits PlainOutput (processSyncPrepare E syncpoint) :=
  emits_get.bind fun _ => emits_assert.bind fun _ =>
    .ite ((emits_commitUptoOp _).bind fun _ => emits_modify) (emits_emit trivial)

theorem emits_logOperation (request : Request) (vs : Viewstamp) (state : LogEntryState) :
    Emits PlainOutput (logOperation E request vs state) :=
  emits_get.bind fun _ => emits_assert.bind fun _ => emits_modify.bind fun _ => emits_ofOption.bind fun _ =>
    emits_modify.bind fun _ => (Emits.when emits_modify).bind fun _ =>
      .ite emits_modify (.when (.ite (emits_executeUptoOp _) (emits_emit trivial)))

theorem emits_completeStateTransfer (opnum : Nat) : Emits PlainOutput (completeStateTransfer E opnum) :=
  emits_get.bind fun s => .when <| emits_modify.bind fun _ => by
    cases s.stateTransferCallback with
    | none => exact emits_abort
    | some cb =>
      cases cb with
      | enterView => exact emits_enterView _ _
      | processSyncPrepare p => exact emits_processSyncPrepare p

theorem emits_processOperation (request : Request) (vs : Viewstamp) (state : LogEntryState) :
    Emits PlainOutput (processOperation E request vs state) :=
  (emits_logOperation _ _ _).bind fun _ => emits_completeStateTransfer _

theorem emits_processGaps (request : Request) : ∀ (n : Nat) (vs : Viewstamp),
    Emits PlainOutput (processGaps E request n vs)
  | 0, _ => emits_pure
  | n + 1, _ => emits_get.bind fun _ => .when <| (emits_processOperation _ _ _).bind fun _ =>
      emits_processGaps request n _

theorem emits_processNextOperation (request : Request) (vs : Viewstamp) (state : LogEntryState) :
    Emits PlainOutput (processNextOperation E request vs state) :=
  (emits_processOperation _ _ _).bind fun _ => emits_get.bind fun _ => emits_processGaps _ _ _

theorem emits_installCommittedGaps (gaps : List Nat) : Emits PlainOutput (installCommittedGaps E gaps) :=
  .forEach (fun _ => emits_get.bind fun _ => .ite emits_pure <| emits_modify.bind fun _ =>
    (Emits.when (emits_processNextOperation _ _ _)).bind fun _ => emits_get.bind fun _ => .when <|
      emits_ofOption.bind fun _ => .when <| emits_assert.bind fun _ => emits_assert.bind fun _ => emits_modify) gaps

theorem emits_rewindLogToOpnum (opnum : Nat) : Emits PlainOutput (rewindLogToOpnum opnum) :=
  emits_get.bind fun _ => emits_assert.bind fun _ => emits_assert.bind fun _ => emits_modify.bind fun _ =>
    emits_ofOption.bind fun _ => emits_modify

theorem emits_sendGapRequest : Emits PlainOutput (sendGapRequest E) :=
  emits_get.bind fun _ => .bind (emits_emit (by split <;> trivial)) fun _ => emits_modify

theorem emits_sendGapCommit : Emits PlainOutput (sendGapCommit E) :=
  emits_get.bind fun _ => emits_assert.bind fun _ => emits_assert.bind fun _ => (emits_emit trivial).bind fun _ =>
    emits_modify

theorem emits_startGapAgreement : Emits PlainOutput (startGapAgreement E) :=
  emits_get.bind fun _ => emits_assert.bind fun _ => emits_modify.bind fun _ =>
    (emits_processNextOperation _ _ _).bind fun _ => emits_sendGapCommit

/-! ### The group -/

/-- The invariant of a group. -/
def invariant (G : Group) : Net.GhostInvariant Replica ToReplicaMessage Sent where
  running g r s := Running g (G.env r) s
  halted _ _ _ := True
  packet := Good
  advances := Extends
  refl := Extends.refl
  trans := Extends.trans
  running_mono := by
    intro r g g' x s hg hx h
    obtain ⟨hvc, hasked⟩ := hg.others x hx
    have hbase : Base g' (G.env x) s :=
      { h with
        viewChange_le := fun v m hm => h.viewChange_le v m (by rwa [show (G.env x).replicaIdx = x from rfl, hvc] at hm)
        asked_le := fun v ha => h.asked_le v (by rwa [show (G.env x).replicaIdx = x from rfl, hasked] at ha)
        quorum := fun v k m hm => hg.viewChange _ _ _ (h.quorum v k m hm) }
    refine { hbase with waiting := fun ha hl => ?_, merging := h.merging }
    obtain ⟨hle, hno, hrec, htr⟩ := h.waiting ha hl
    exact ⟨hle, by rwa [show (G.env x).replicaIdx = x from rfl, hasked],
      fun m hm => hrec m (by rwa [show (G.env x).replicaIdx = x from rfl, hvc] at hm), htr⟩
  halted_mono _ _ _ := trivial
  packet_mono := Good.mono

variable {G : Group} {r : Nat} {α : Type}

/-- What a step of replica `r` of the group does. -/
abbrev Group.Spec (G : Group) (r : Nat) (g : Sent) (m : NOPaxosHandler α) (s : Replica)
    (J : α → Sent → Replica → Prop) : Prop := (invariant G).Spec G.config.n r g m s J

/-- A handler of which nothing is recorded. -/
theorem spec_of_plain {m : NOPaxosHandler α} {K : α → Replica → Prop}
    (h : Sat m s (fun a s' _ => K a s') fun _ _ => True) (he : Emits PlainOutput m) :
    G.Spec r g m s fun a g' t => g' = g ∧ K a t :=
  (h.and (he s)).mono
    (fun _ _ _ h => ⟨g, .refl r g, ⟨rfl, h.1⟩, fun x hx p hp => good_of_plain (h.2 x hx) p hp⟩)
    fun _ _ h => ⟨g, .refl r g, trivial, fun x hx p hp => good_of_plain (h.2 x hx) p hp⟩

/-- One that keeps the invariant. -/
theorem spec_of_kept {m : NOPaxosHandler Unit} (hs : Running g (G.env r) s)
    (h : Relates (Kept (Running g (G.env r))) m) (he : Emits PlainOutput m) :
    G.Spec r g m s fun _ g' t => Running g' (G.env r) t :=
  (spec_of_plain ((h s).mono (fun _ _ _ h => h hs) fun _ _ h => h) he).mono fun _ _ _ _ h => by
    obtain ⟨rfl, h⟩ := h
    exact h

/-- One of a replica that does not change views. -/
theorem spec_of_inView {m : NOPaxosHandler Unit} (hs : InView g (G.env r) s)
    (h : Relates (Kept (InView g (G.env r))) m) (he : Emits PlainOutput m) :
    G.Spec r g m s fun _ g' t => Running g' (G.env r) t :=
  (spec_of_plain ((h s).mono (fun _ _ _ h => h hs) fun _ _ h => h) he).mono fun _ _ _ _ h => by
    obtain ⟨rfl, h⟩ := h
    exact h.running

/-! ### Sending what is recorded -/

/-- Replica `r` sends a ViewChange message. -/
def Sent.record (g : Sent) (r : Nat) (m : ViewChangeMessage) (hm : ∀ x ∈ m.committedgaps, x ≤ m.lastop) : Sent where
  viewChange k v := if k = r ∧ v = (m.sessnum, m.view) then some m else g.viewChange k v
  asked := g.asked
  gaps_le k v m' h := by
    split_ifs at h
    · cases h
      exact hm
    · exact g.gaps_le k v m' h

/-- Replica `r` asks for a state transfer. -/
def Sent.ask (g : Sent) (r : Nat) (v : Nat × Nat) : Sent where
  viewChange := g.viewChange
  asked k w := g.asked k w ∨ k = r ∧ w = v
  gaps_le := g.gaps_le

theorem Extends.record {m : ViewChangeMessage} {hm : ∀ x ∈ m.committedgaps, x ≤ m.lastop}
    (h : ∀ m', g.viewChange r (m.sessnum, m.view) = some m' → m' = m) : Extends r g (g.record r m hm) where
  others k hk := ⟨funext fun v => if_neg fun hc => hk hc.1, rfl⟩
  viewChange k v m' hm' := by
    simp only [Sent.record]
    split_ifs with hc
    · obtain ⟨rfl, rfl⟩ := hc
      rw [h m' hm']
    · exact hm'
  asked _ _ h := h

theorem Extends.ask (g : Sent) (r : Nat) (v : Nat × Nat) : Extends r g (g.ask r v) :=
  ⟨fun _ hk => ⟨rfl, funext fun _ => propext ⟨fun h => h.resolve_right fun hc => hk hc.1, Or.inl⟩⟩,
    fun _ _ _ h => h, fun _ _ h => Or.inl h⟩

/-- `SendViewChange` of a replica that changes views. -/
theorem spec_sendViewChange (h : Running g (G.env r) s) (hst : s.status = .viewChange)
    (haw : ¬ amLeader (G.env r) s → Awaits g (G.env r) s) :
    G.Spec r g (sendViewChange (G.env r)) s fun _ g' t =>
      t = s.start .viewChange ∧ Running g' (G.env r) t := by
  simp only [sendViewChange, Net.GhostInvariant.spec_get_bind]
  refine .emit_bind (good_of_plain trivial) (.bind (J := fun _ g' t => t = s ∧ Running g' (G.env r) s ∧
    (¬ amLeader (G.env r) s → Awaits g' (G.env r) s)) ?_ ?_)
  · rw [Net.GhostInvariant.spec_when]
    refine ⟨fun hl => ?_, fun hl => .same ⟨rfl, h, haw⟩⟩
    obtain ⟨hle, hno, hrec, htr⟩ := haw hl
    -- the message is recorded for the view, if it has not been before
    have hext : Extends r g (g.record r (viewChangeMessage (G.env r) s) hle) := .record hrec
    have haw' : Awaits (g.record r (viewChangeMessage (G.env r) s) hle) (G.env r) s := by
      refine ⟨hle, hno, fun m hm => ?_, htr⟩
      simp only [Sent.record] at hm
      split_ifs at hm with hc
      · exact (Option.some.inj hm).symm
      · exact hrec m hm
    have hrun : Running (g.record r (viewChangeMessage (G.env r) s) hle) (G.env r) s :=
      { h with
        viewChange_le := fun v m hm => by
          simp only [Sent.record] at hm
          split_ifs at hm with hc
          · rw [hc.2]
            exact le_refl _
          · exact h.viewChange_le v m hm
        quorum := fun v k m hm => hext.viewChange _ _ _ (h.quorum v k m hm)
        waiting := fun _ _ => haw' }
    refine ⟨_, hext, ⟨rfl, hrun, fun _ => haw'⟩, fun x hx p hp => ?_⟩
    obtain rfl := List.mem_singleton.mp hx
    obtain rfl := List.mem_singleton.mp hp
    exact if_pos ⟨rfl, rfl⟩
  · rintro _ g' t - ⟨rfl, hrun, haw'⟩
    have hstarted : Running g' (G.env r) (t.start .viewChange) :=
      { hrun with
        changing := fun _ => hst
        requests := fun hs => by simpa [Replica.start] using hrun.requests hs
        waiting := fun _ hl => { haw' hl with transfer := by simpa [Replica.start] using (haw' hl).transfer } }
    exact Net.GhostInvariant.spec_modify.mpr (.same ⟨rfl, hstarted⟩)

/-- `SendStateTransferRequest` of a replica that sends no ViewChange message. -/
theorem spec_sendStateTransferRequest (h : Running g (G.env r) s)
    (hfree : s.active .viewChange = true → amLeader (G.env r) s) :
    G.Spec r g sendStateTransferRequest s fun _ g' t => Running g' (G.env r) t := by
  simp only [sendStateTransferRequest, Net.GhostInvariant.spec_get_bind]
  have hext := Extends.ask g r s.viewId
  have hrun : Running (g.ask r s.viewId) (G.env r) (s.start .stateTransfer) :=
    { h with
      asked_le := fun v ha => ha.elim (h.asked_le v) fun hv => hv.2.le
      changing := fun ha => h.changing (by simpa [Replica.start] using ha)
      requests := fun hs => by simpa [Replica.start] using h.requests hs
      waiting := fun ha hl => absurd (hfree (by simpa [Replica.start] using ha)) hl }
  refine Net.GhostInvariant.Spec.advance hext (.emit_bind (fun p hp => ?_) (.same hrun))
  obtain rfl := List.mem_singleton.mp hp
  intro j hj
  cases hj
  exact Or.inr ⟨rfl, rfl⟩

end Dsnet.NOPaxos
