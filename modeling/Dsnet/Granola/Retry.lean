import Dsnet.Granola.Client
import Dsnet.Spanner.Retry

/-! `GranolaServer::resendPrepareTimeout`, which works like that of `SpannerServer`: the leader sends the PREPARE
    of its last operation again as long as an operation is not committed, but for the one timer that there is for
    all of them. -/

namespace Dsnet.Granola
open Handler Transaction

variable {σ : Type} {E : ServerEnv σ} {s s' : Server σ} {p : Prop}

/-- How far a leader has got. -/
def Server.progress (s : Server σ) : Progress where
  opnums := s.log.map fun e => e.opnum
  lastOp := s.lastOp
  lastCommitted := s.lastCommitted
  resend := s.resendPrepareTimeout

/-- The operation up to which the leader commits at a message. -/
def Server.commits (E : ServerEnv σ) (s : Server σ) : Message → Option Nat
  | .prepareOK view opnum replicaNum =>
    if amLeader E s = true ∧ s.lastCommitted < opnum ∧
        ((s.prepareOKQuorum.add (view, opnum) replicaNum ()).checkForQuorum (view, opnum)).isSome
      then some opnum else none
  | _ => none

/-! ### What leaves it as it is -/

/-- The log is numbered without gaps. -/
def Server.Numbered (s : Server σ) : Prop := (s.log.map fun e => e.opnum) = List.range' 1 s.log.length

/-- The numbers that a replica counts with, and its view. -/
def Server.counters (s : Server σ) := (s.view, s.lastOp, s.lastCommitted, s.resendPrepareTimeout, s.log.length)

/-- They are as before, and if `p` the log is numbered as before. -/
def Stays (p : Prop) (s s' : Server σ) : Prop := s'.counters = s.counters ∧ (p → s.Numbered → s'.Numbered)

instance : Std.Refl (Stays (σ := σ) p) := ⟨fun _ => ⟨rfl, fun _ h => h⟩⟩

instance : IsTrans (Server σ) (Stays p) :=
  ⟨fun _ _ _ h h' => ⟨h'.1.trans h.1, fun hp hn => h'.2 hp (h.2 hp hn)⟩⟩

theorem stays_modify {h : Server σ → Server σ} (hh : ∀ s, (h s).counters = s.counters ∧ (h s).log = s.log) :
    Relates (Stays p) (modify h : ServerHandler σ Unit) :=
  relates_modify fun s => ⟨(hh s).1, fun _ hn => by rwa [Server.Numbered, (hh s).2]⟩

/-- An entry takes the place that it is numbered with. -/
theorem Server.Numbered.setEntry (h : s.Numbered) {e : GranolaLogEntry} (he : 0 < e.opnum) :
    (Transaction.setEntry s.log e.opnum e).map (fun e => e.opnum) = s.log.map fun e => e.opnum := by
  have hlen : (s.log.map fun e => e.opnum).length = s.log.length := List.length_map ..
  rw [Transaction.setEntry, List.map_set]
  refine List.ext_getElem? fun i => ?_
  rw [List.getElem?_set]
  split_ifs with hi hl
  · subst hi
    rw [h, List.getElem?_range' (hlen ▸ hl)]
    congr 1
    omega
  · subst hi
    rw [List.getElem?_eq_none (Nat.not_lt.mp hl)]
  · rfl

theorem stays_store (e : GranolaLogEntry) : Relates (Stays (0 < e.opnum)) (store e : ServerHandler σ Unit) :=
  relates_modify fun s => ⟨by simp [Server.counters, setEntry], fun he h => by
    rw [Server.Numbered]
    exact (h.setEntry he).trans (h.trans (by simp [setEntry]))⟩

/-- What holds of any entry holds of those of a log that is numbered. -/
theorem Stays.of_find {k : Nat} {e : GranolaLogEntry} (h : Stays (0 < e.opnum) s s')
    (he : findEntry s.log k = some e) : Stays p s s' := by
  refine ⟨h.1, fun _ hn => h.2 ?_ hn⟩
  have hmem : e.opnum ∈ s.log.map fun e => e.opnum := List.mem_map_of_mem (mem_of_findEntry he)
  rw [hn, List.mem_range'_1] at hmem
  exact hmem.1

theorem stays_updateClientTable (req : SequencedRequest) :
    Relates (Stays p) (updateClientTable req : ServerHandler σ Unit) :=
  relates_get.bind fun _ => relates_assert.bind fun _ => stays_modify fun _ => ⟨rfl, rfl⟩

theorem stays_insertPending (opnum timestamp : Nat) :
    Relates (Stays p) (insertPending E opnum timestamp : ServerHandler σ Unit) := by
  refine .when (stays_modify fun s => ?_)
  split <;> exact ⟨rfl, rfl⟩

theorem stays_execute (opnum : Nat) (txn : String) (arg : TxnArg) : Relates (Stays p) (execute E opnum txn arg) :=
  relates_get.bind fun _ => .bind (stays_modify fun _ => ⟨rfl, rfl⟩) fun _ => relates_ofOption

theorem stays_executeTxn (entry : GranolaLogEntry) : Relates (Stays (0 < entry.opnum)) (executeTxn E entry) := by
  refine .when (relates_assert.bind fun _ => .bind (.whenSome fun type => ?_) fun _ =>
    (stays_store { entry with state := .executed }).bind fun _ => relates_get.bind fun _ => .when ?_)
  · exact (stays_execute _ _ _).bind fun _ => relates_assert.bind fun _ => relates_assert
  · exact .bind (stays_modify fun _ => ⟨rfl, rfl⟩) fun _ => .when (.whenSome fun _ => relates_emit)

theorem stays_executeIndep (entry : GranolaLogEntry) : Relates (Stays (0 < entry.opnum)) (executeIndep E entry) :=
  (stays_execute _ _ _).bind fun _ => (stays_store { entry with state := .executed }).bind fun _ =>
    relates_get.bind fun _ => .bind (.when (stays_modify fun _ => ⟨rfl, rfl⟩)) fun _ =>
    .when (.whenSome fun _ => relates_emit)

theorem stays_executePending : ∀ (k : Nat) {p : Prop}, Relates (Stays p) (executePending E k)
  | 0, _ => relates_pure
  | k + 1, p => by
      refine relates_get_bind fun s => ?_
      rw [sat_whenSome]
      refine ⟨fun x _ => ?_, fun _ => Std.Refl.refl (r := Stays p) s⟩
      rw [sat_bind, sat_ofOption]
      refine ⟨fun entry hentry => ?_, fun _ => trivial⟩
      have hrest : Relates (Stays (0 < entry.opnum)) (when
          (entry.txnData.tsDecided = true ∧ entry.state = .committed) do
            executeIndep E entry
            modify fun s => { s with pendingTransactions := s.pendingTransactions.erase x.1 }
            executePending E k) :=
        .when ((stays_executeIndep entry).bind fun _ => .bind (stays_modify fun _ => ⟨rfl, rfl⟩) fun _ =>
          stays_executePending k)
      exact (hrest s).mono (fun _ s' _ hs' => hs'.of_find hentry) fun _ _ h => h

theorem stays_executeTxns : Relates (Stays p) (executeTxns E) :=
  relates_get.bind fun _ => stays_executePending _

/-! The handlers of the votes change an entry and go on with it. -/

/-- The entry that is returned has its number. -/
abbrev Yields (entry : GranolaLogEntry) (m : ServerHandler σ GranolaLogEntry) : Prop :=
  ∀ s, Sat m s (fun e s' _ => e.opnum = entry.opnum ∧ Stays (0 < entry.opnum) s s') fun _ _ => True

theorem Yields.bind {entry : GranolaLogEntry} {m : ServerHandler σ GranolaLogEntry}
    {h : GranolaLogEntry → ServerHandler σ Unit} (hm : Yields entry m)
    (hh : ∀ e, Relates (Stays (0 < e.opnum)) (h e)) : Relates (Stays (0 < entry.opnum)) (m >>= h) := fun s =>
  sat_bind.mpr ((hm s).mono (fun e s' _ he => (hh e s').mono (fun _ s'' _ hs'' =>
    IsTrans.trans (r := Stays (0 < entry.opnum)) s s' s'' he.2 (he.1 ▸ hs'')) fun _ _ h => h) fun _ _ h => h)

theorem yields_pure {entry e : GranolaLogEntry} (he : e.opnum = entry.opnum) :
    Yields entry (pure e : ServerHandler σ GranolaLogEntry) := fun s => ⟨he, Std.Refl.refl (r := Stays _) s⟩

theorem Yields.after {entry : GranolaLogEntry} {α : Type} {m : ServerHandler σ α}
    {h : α → ServerHandler σ GranolaLogEntry} (hm : Relates (Stays (0 < entry.opnum)) m)
    (hh : ∀ a, Yields entry (h a)) : Yields entry (m >>= h) := fun s =>
  sat_bind.mpr ((hm s).mono (fun a s' _ hs' => (hh a s').mono (fun _ s'' _ hs'' =>
    ⟨hs''.1, IsTrans.trans (r := Stays (0 < entry.opnum)) s s' s'' hs' hs''.2⟩) fun _ _ h => h) fun _ _ h => h)

theorem yields_prepareTxn (entry : GranolaLogEntry) : Yields entry (prepareTxn E entry) := by
  refine .after (stays_execute _ _ _) fun x => .after (stays_store (entry.withStatus (prepareStatus x.2))) fun _ =>
    .after relates_get fun _ => .after (.when (stays_modify fun _ => ⟨rfl, rfl⟩)) fun _ => yields_pure rfl

theorem stays_sendVote (entry : GranolaLogEntry) : Relates (Stays p) (sendVote E entry) :=
  relates_get.bind fun _ => .when (relates_emit.bind fun _ => relates_assert.bind fun _ =>
    stays_modify fun _ => ⟨rfl, rfl⟩)

theorem yields_decideTxn (entry : GranolaLogEntry) (msgs : StdMap Nat (StdMap Nat VoteMessage)) :
    Yields entry (decideTxn E entry msgs) := by
  refine .after relates_ofOption fun status => .after (stays_store { entry with txnData := _ }) fun _ =>
    .after (stays_modify fun _ => ⟨rfl, rfl⟩) fun _ => .after relates_get fun _ => .after relates_emit fun _ =>
    yields_pure rfl

theorem yields_checkVotes (entry : GranolaLogEntry) : Yields entry (checkVotes E entry) := by
  refine .after relates_assert fun _ => .after relates_get fun s => ?_
  cases s.voteQuorum.checkForQuorum entry.reqId with
  | none => exact yields_pure rfl
  | some msgs =>
    intro s
    exact sat_ite.mpr ⟨fun _ => yields_decideTxn entry msgs s, fun _ => yields_pure rfl s⟩

theorem stays_checkVoteQuorum (entry : GranolaLogEntry) :
    Relates (Stays (0 < entry.opnum)) (checkVoteQuorum E entry) := by
  have hnext : ∀ e : GranolaLogEntry, Relates (Stays (0 < e.opnum)) (when (e.txnData.tsDecided = true) do
      modify fun s => { s with voteTimeouts := Function.update s.voteTimeouts e.opnum false }
      if E.locking = true then executeTxn E e else executeTxns E) := fun e =>
    .when (.bind (stays_modify fun _ => ⟨rfl, rfl⟩) fun _ => .ite (stays_executeTxn e) stays_executeTxns)
  exact .when (.ite ((yields_pure rfl).bind hnext) ((yields_checkVotes entry).bind hnext))

/-- What stays, when the log is numbered. -/
theorem Stays.progress (h : Stays True s s') (hn : s.Numbered) :
    s'.Numbered ∧ s'.view = s.view ∧ s'.progress = s.progress := by
  have hn' := h.2 trivial hn
  have hcounters := h.1
  simp only [Server.counters, Prod.mk.injEq] at hcounters
  obtain ⟨hview, hlast, hcommitted, hresend, hlength⟩ := hcounters
  refine ⟨hn', hview, ?_⟩
  rw [Server.progress, Server.progress, hn', hn, hlength, hlast, hcommitted, hresend]

/-! ### What the handlers of a leader do to it -/

/-- The next operation is committed. -/
theorem commitNext_progress (hn : s.Numbered) : Sat (commitNext E) s (fun _ s' _ => s'.Numbered ∧ s'.view = s.view ∧
    s'.progress = { s.progress with lastCommitted := s.lastCommitted + 1 }) fun _ _ => True := by
  rw [commitNext, sat_bind, sat_modify, sat_bind, sat_get, sat_bind, sat_ofOption]
  refine ⟨fun entry hentry => ?_, fun _ => trivial⟩
  have hrest : Relates (Stays (0 < entry.opnum)) (when (entry.state ≠ .executed) do
      let entry := { entry with state := .committed }
      store entry
      let entry ← if E.locking = true then prepareTxn E entry else pure entry
      sendVote E entry
      checkVoteQuorum E entry : ServerHandler σ Unit) := by
    have hvote : ∀ e : GranolaLogEntry, Relates (Stays (0 < e.opnum)) (do sendVote E e; checkVoteQuorum E e) :=
      fun e => (stays_sendVote e).bind fun _ => stays_checkVoteQuorum e
    exact .when (.bind (stays_store { entry with state := .committed }) fun _ =>
      .ite ((yields_prepareTxn { entry with state := .committed }).bind hvote) ((yields_pure rfl).bind hvote))
  refine hrest.sat (fun _ s' _ hs' => ?_) fun _ _ => trivial
  exact (hs'.of_find hentry).progress hn

theorem iterate_progress : ∀ (n : Nat) {s : Server σ}, s.Numbered → Sat (iterate n (commitNext E)) s
    (fun _ s' _ => s'.Numbered ∧ s'.view = s.view ∧
      s'.progress = { s.progress with lastCommitted := s.lastCommitted + n }) fun _ _ => True
  | 0, _, hn => ⟨hn, rfl, rfl⟩
  | n + 1, s, hn => by
      rw [iterate, sat_bind]
      refine (commitNext_progress hn).mono (fun _ t _ ht => ?_) fun _ _ _ => trivial
      have hcommitted : t.lastCommitted = s.lastCommitted + 1 := congrArg Progress.lastCommitted ht.2.2
      refine (iterate_progress n ht.1).mono (fun _ s' _ hs' => ⟨hs'.1, hs'.2.1.trans ht.2.1, ?_⟩) fun _ _ _ => trivial
      rw [hs'.2.2, ht.2.2, hcommitted, Nat.add_right_comm, Nat.add_assoc]

theorem commitUpTo_progress (hn : s.Numbered) {k : Nat} (hk : s.lastCommitted < k) : Sat (commitUpTo E k) s
    (fun _ s' _ => s'.view = s.view ∧ s'.progress = s.progress.commit k) fun _ _ => True := by
  simp only [commitUpTo, sat_bind, sat_get, sat_when, sat_emit, sat_modify, gt_iff_lt, hk, forall_const,
    not_true_eq_false, false_imp_iff, and_true, true_and]
  have hall : Sat (iterate (k - s.lastCommitted) (commitNext E)) { s with resendPrepareTimeout := false }
      (fun _ s' _ => s'.view = s.view ∧ s'.progress = s.progress.commit k) fun _ _ => True := by
    refine Sat.mono (iterate_progress _ hn) (fun _ s' _ hs' => ⟨hs'.2.1, hs'.2.2.trans ?_⟩) fun _ _ _ => trivial
    show ({ s.progress with lastCommitted := s.lastCommitted + (k - s.lastCommitted), resend := false } : Progress) = _
    rw [Nat.add_sub_cancel' hk.le]
    rfl
  exact ⟨fun _ => hall, fun _ => hall⟩

/-- What is committed already is not committed again. -/
theorem commitUpTo_of_le {k : Nat} (hk : k ≤ s.lastCommitted) {Q : Unit → Server σ → List Output → Prop}
    (hQ : Q () s []) : Sat (commitUpTo E k) s Q fun _ _ => True := by
  simp only [commitUpTo, sat_bind, sat_get, sat_when, gt_iff_lt, Nat.not_lt.mpr hk, Nat.sub_eq_zero_of_le hk, iterate,
    sat_pure]
  exact ⟨fun h => h.1.elim, fun _ => ⟨fun h => h.elim, fun _ => hQ⟩⟩

/-- The PREPARE of the last operation is sent. -/
theorem sendPrepare_progress : Sat (sendPrepare E) s (fun _ s' _ => s'.view = s.view ∧
    s'.progress = { s.progress with resend := true }) fun _ _ => True := by
  simp only [sendPrepare, sat_bind, sat_get, sat_ofOption, sat_emit, sat_modify]
  exact ⟨fun _ _ => ⟨trivial, rfl⟩, fun _ => trivial⟩

theorem append_progress (e : GranolaLogEntry) : Sat (append e) s (fun _ s' _ => s'.view = s.view ∧
    s'.progress = { s.progress with opnums := s.progress.opnums ++ [e.opnum] }) fun _ _ => True := by
  simp only [append, sat_bind, sat_modify, sat_get, sat_assert]
  refine ⟨fun _ => ⟨trivial, ?_⟩, fun _ => trivial⟩
  simp [Server.progress]

theorem logRequest_progress (hn : s.Numbered) (txnid : Nat) (indep ro : Bool) (req : SequencedRequest) :
    Sat (logRequest E txnid indep ro req) s (fun _ s' _ => s'.view = s.view ∧ s'.progress = s.progress.log)
      fun _ _ => True := by
  rw [logRequest, sat_bind]
  refine (stays_updateClientTable (p := True) req).sat (fun _ t _ ht => ?_) fun _ _ => trivial
  obtain ⟨hn, hview, hprogress⟩ := ht.progress hn
  rw [sat_bind, sat_modify, sat_bind, sat_get, sat_bind]
  refine Relates.sat (stays_insertPending (p := True) _ _) (fun _ u _ hu => ?_) fun _ _ => trivial
  obtain ⟨-, hview', hprogress'⟩ := hu.progress hn
  rw [sat_bind]
  refine (append_progress _).mono (fun _ v _ hv => ?_) fun _ _ _ => trivial
  rw [sat_bind, sat_when]
  have hsend : ∀ w : Server σ, w.view = v.view → w.progress = v.progress → Sat (sendPrepare E) w
      (fun _ s' _ => s'.view = s.view ∧ s'.progress = s.progress.log) fun _ _ => True := fun w hw hw' =>
    sendPrepare_progress.mono (fun _ s' _ hs' => ⟨hs'.1.trans (hw.trans (hv.1.trans (hview'.trans hview))), by
      rw [hs'.2, hw', hv.2, hprogress', Progress.log, ← hprogress]
      rfl⟩) fun _ _ _ => trivial
  exact ⟨fun _ => hsend _ rfl rfl, fun _ => hsend _ rfl rfl⟩

/-- What a message to the leader comes to. -/
theorem serverReceive_progress (hn : s.Numbered) (hlead : amLeader E s = true) (remote : Node) (m : Message) :
    Sat (serverReceive E remote m) s (fun _ s' _ => s'.view = s.view ∧ s.progress.After (s.commits E m) s'.progress)
      fun _ _ => True := by
  have hstay : ∀ {h : ServerHandler σ Unit}, Relates (Stays True) h → Sat h s (fun _ s' _ => s'.view = s.view ∧
      s.progress.Moves s'.progress ∧ s'.lastCommitted = s.lastCommitted) fun _ _ => True := by
    intro h hh
    refine hh.sat (fun _ s' _ hs' => ?_) fun _ _ => trivial
    obtain ⟨-, hview, hprogress⟩ := hs'.progress hn
    exact ⟨hview, hprogress ▸ .stay, congrArg Progress.lastCommitted hprogress⟩
  have hnot : amLeader E s = false → False := fun h => by
    rw [hlead] at h
    cases h
  cases m with
  | request txnid indep ro req =>
    show Sat (handleClientRequest E remote txnid indep ro req) s _ _
    rw [handleClientRequest, sat_bind, sat_modify, sat_bind, sat_get]
    have hkept : s.progress.Moves s.progress ∧ s.lastCommitted = s.lastCommitted := ⟨.stay, rfl⟩
    have hlog : ∀ t : Server σ, t.Numbered → t.view = s.view → t.progress = s.progress →
        Sat (logRequest E txnid indep ro req) t (fun _ s' _ => s'.view = s.view ∧ s.progress.Moves s'.progress ∧
          s'.lastCommitted = s.lastCommitted) fun _ _ => True := fun t hn hview hprogress =>
      (logRequest_progress hn txnid indep ro req).mono (fun _ s' _ hs' => ⟨hs'.1.trans hview,
        by rw [hs'.2, hprogress]; exact .log,
        (congrArg Progress.lastCommitted hs'.2).trans (congrArg Progress.lastCommitted hprogress)⟩)
        fun _ _ _ => trivial
    refine sat_when.mpr ⟨fun _ => ?_, fun _ => ⟨rfl, hkept⟩⟩
    split
    · refine sat_ite.mpr ⟨fun _ => ⟨rfl, hkept⟩, fun _ => sat_ite.mpr ⟨fun _ => sat_when.mpr
        ⟨fun _ => ⟨rfl, hkept⟩, fun _ => ⟨rfl, hkept⟩⟩, fun _ => hlog _ hn rfl rfl⟩⟩
    · exact hlog _ hn rfl rfl
  | prepare view opnum txnid indep ro req timestamp =>
    show Sat (handlePrepare E view opnum txnid indep ro req timestamp) s _ _
    rw [handlePrepare, sat_bind, sat_get, sat_bind, sat_assert]
    exact ⟨fun h => (hnot h).elim, fun _ => trivial⟩
  | prepareOK view opnum replicaNum =>
    show Sat (handlePrepareOK E view opnum replicaNum) s _ _
    simp only [handlePrepareOK, sat_bind, sat_get, sat_assert, sat_modify, sat_whenSome, Server.commits, hlead,
      forall_const, true_and, not_true_eq_false, false_imp_iff, and_true]
    refine ⟨fun _ hq => ?_, fun hq => ?_⟩
    · rcases Nat.lt_or_ge s.lastCommitted opnum with hlt | hge
      · rw [if_pos ⟨hlt, by rw [hq]; rfl⟩]
        refine Sat.mono (commitUpTo_progress ?_ ?_) (fun _ _ _ hs' => ⟨hs'.1, hlt, hs'.2⟩) fun _ _ _ => trivial
        · exact hn
        · exact hlt
      · rw [if_neg fun h => Nat.not_lt.mpr hge h.1]
        refine commitUpTo_of_le ?_ ⟨rfl, .stay, rfl⟩
        exact hge
    · rw [if_neg fun h => by rw [hq] at h; cases h.2]
      exact ⟨.stay, rfl⟩
  | commit view opnum =>
    show Sat (handleCommit E opnum) s _ _
    rw [handleCommit, sat_bind, sat_get, sat_bind, sat_assert]
    exact ⟨fun h => (hnot h).elim, fun _ => trivial⟩
  | vote msg =>
    refine hstay (relates_assert.bind fun _ => relates_get_bind fun t => sat_when.mpr ⟨fun _ => ?_, fun _ =>
      Std.Refl.refl (r := Stays True) t⟩)
    cases he : t.findRequest (msg.clientid, msg.clientreqid) with
    | none => exact ⟨rfl, fun _ h => h⟩
    | some entry =>
      obtain ⟨k, _, hk⟩ := Option.bind_eq_some_iff.mp he
      have hcheck : Relates (Stays (0 < entry.opnum)) (when (entry.txnData.tsDecided = false) do
          modify fun s => { s with
            voteQuorum := s.voteQuorum.add (msg.clientid, msg.clientreqid) msg.shardNum 0 msg }
          checkVoteQuorum E entry) :=
        .when (.bind (stays_modify fun _ => ⟨rfl, rfl⟩) fun _ => stays_checkVoteQuorum entry)
      exact (hcheck t).mono (fun _ _ _ ht => ht.of_find hk) fun _ _ h => h
  | voteRequest clientid clientreqid =>
    refine hstay (relates_get.bind fun t => .when (.whenSome fun _ => .when relates_emit))
  | finalTimestamp view opnum timestamp status =>
    show Sat (handleFinalTimestamp E view opnum timestamp status) s _ _
    rw [handleFinalTimestamp, sat_bind, sat_get, sat_bind, sat_assert]
    exact ⟨fun h => (hnot h).elim, fun _ => trivial⟩
  | reply msg => exact trivial

/-! The view never changes. -/

abbrev SameView : Server σ → Server σ → Prop := Same Server.view

theorem sameView_of_stays {α : Type} {h : ServerHandler σ α} (hh : Relates (Stays p) h) : Relates SameView h :=
  hh.mono fun _ _ hs => congrArg Prod.fst hs.1

theorem sameView_append (e : GranolaLogEntry) : Relates SameView (append e : ServerHandler σ Unit) := fun _ =>
  (append_progress e).mono (fun _ _ _ h => h.1) fun _ _ _ => trivial

theorem sameView_sendPrepare : Relates SameView (sendPrepare E) := fun _ =>
  sendPrepare_progress.mono (fun _ _ _ h => h.1) fun _ _ _ => trivial

theorem sameView_fillLog (view : Nat) : Relates SameView (fillLog view : ServerHandler σ Unit) :=
  .bind (same_modify fun _ => rfl) fun _ => relates_get.bind fun _ => sameView_append _

theorem sameView_handleClientRequest (remote : Node) (txnid : Nat) (indep ro : Bool) (req : SequencedRequest) :
    Relates SameView (handleClientRequest E remote txnid indep ro req) := by
  have hlog : Relates SameView (logRequest E txnid indep ro req) := by
    refine (sameView_of_stays (stays_updateClientTable (p := True) req)).bind fun _ =>
      .bind (same_modify fun _ => rfl) fun _ => relates_get.bind fun _ => ?_
    exact (sameView_of_stays (stays_insertPending (p := True) _ _)).bind fun _ => (sameView_append _).bind fun _ =>
      .bind (.when (same_modify fun _ => rfl)) fun _ => sameView_sendPrepare
  refine .bind (same_modify fun _ => rfl) fun _ => relates_get.bind fun s => .when ?_
  cases s.clientTable req.clientid with
  | none => exact hlog
  | some entry => exact relates_pure.ite ((relates_emit.when).ite hlog)

theorem sameView_handlePrepare (view opnum txnid : Nat) (indep ro : Bool) (req : SequencedRequest)
    (timestamp : Nat) : Relates SameView (handlePrepare E view opnum txnid indep ro req timestamp) := by
  refine relates_get.bind fun _ => relates_assert.bind fun _ => relates_emit.ite ?_
  refine ((sameView_fillLog view).iterate _).bind fun _ => .bind (same_modify fun _ => rfl) fun _ =>
    relates_get.bind fun _ => ?_
  exact (sameView_of_stays (stays_insertPending (p := True) _ _)).bind fun _ => (sameView_append _).bind fun _ =>
    (sameView_of_stays (stays_updateClientTable (p := True) req)).bind fun _ => relates_emit

theorem sameView_commitUpTo (opnum : Nat) : Relates SameView (commitUpTo E opnum) := by
  have hvote : ∀ e : GranolaLogEntry, Relates SameView (do sendVote E e; checkVoteQuorum E e) := fun e =>
    sameView_of_stays ((stays_sendVote e).bind fun _ => stays_checkVoteQuorum e)
  have hnext : Relates SameView (commitNext E) := by
    refine .bind (same_modify fun _ => rfl) fun _ => relates_get.bind fun _ => relates_ofOption.bind fun entry =>
      .when (.bind (sameView_of_stays (stays_store _)) fun _ => ?_)
    refine .ite (.bind (fun s => ?_) hvote) (.bind relates_pure hvote)
    exact (yields_prepareTxn _ s).mono (fun _ _ _ h => congrArg Prod.fst h.2.1) fun _ _ _ => trivial
  exact relates_get.bind fun _ => .bind (.when relates_emit) fun _ => .bind (.when (same_modify fun _ => rfl)) fun _ =>
    hnext.iterate _

theorem sameView_handleFinalTimestamp (view opnum timestamp : Nat) (status : Status) :
    Relates SameView (handleFinalTimestamp E view opnum timestamp status) := by
  have htxns : Relates SameView (executeTxns E) := sameView_of_stays (stays_executeTxns (p := True))
  refine relates_get.bind fun _ => relates_assert.bind fun _ => .bind (.when ?_) fun _ => relates_get.bind fun _ =>
    relates_ofOption.bind fun _ => .bind (sameView_of_stays (stays_store _)) fun _ =>
    (sameView_commitUpTo opnum).bind fun _ => .ite ?_ htxns
  · exact ((sameView_fillLog view).iterate _).bind fun _ => (sameView_commitUpTo opnum).bind fun _ => .when htxns
  · exact relates_get.bind fun _ => relates_ofOption.bind fun _ => sameView_of_stays (stays_executeTxn _)

theorem sameView_serverReceive (remote : Node) (m : Message) : Relates SameView (serverReceive E remote m) := by
  cases m with
  | request txnid indep ro req => exact sameView_handleClientRequest remote txnid indep ro req
  | prepare view opnum txnid indep ro req timestamp =>
    exact sameView_handlePrepare view opnum txnid indep ro req timestamp
  | prepareOK view opnum replicaNum =>
    exact relates_get.bind fun _ => relates_assert.bind fun _ => .bind (same_modify fun _ => rfl) fun _ =>
      relates_get.bind fun _ => .whenSome fun _ => sameView_commitUpTo opnum
  | commit view opnum =>
    exact relates_get.bind fun _ => relates_assert.bind fun _ => .when (sameView_commitUpTo opnum)
  | vote msg =>
    refine relates_assert.bind fun _ => relates_get.bind fun s => .when ?_
    cases s.findRequest (msg.clientid, msg.clientreqid) with
    | none => exact same_modify fun _ => rfl
    | some entry => exact .when (.bind (same_modify fun _ => rfl) fun _ => sameView_of_stays (stays_checkVoteQuorum _))
  | voteRequest clientid clientreqid =>
    exact relates_get.bind fun _ => .when (.whenSome fun _ => .when relates_emit)
  | finalTimestamp view opnum timestamp status => exact sameView_handleFinalTimestamp view opnum timestamp status
  | reply msg => exact relates_abort

/-! ### Runs of the shards -/

/-- The leader goes on retrying: while an operation is not committed the timer runs, and what it sends is the
    PREPARE of an operation that is not committed. -/
def Retries (E : ServerEnv σ) (s : Server σ) : Prop :=
  s.lastCommitted < s.lastOp → s.resendPrepareTimeout = true ∧
    Sat (sendPrepare E) s (fun _ _ o => ∃ e : GranolaLogEntry,
      o = [E.toAll (.prepare e.view e.opnum e.txnData.txnid e.txnData.indep e.txnData.ro e.request
        e.txnData.proposedTs)] ∧ s.lastCommitted < e.opnum) fun _ _ => False

theorem retries_iff (hc : s.progress.Complete) : Retries E s ↔ s.progress.Retrying := by
  refine ⟨fun h hlt => (h hlt).1, fun h hlt => ⟨h hlt, ?_⟩⟩
  obtain ⟨e, (he : findEntry s.log s.lastOp = some e), hopnum⟩ := exists_findEntry hc (Nat.zero_lt_of_lt hlt)
  simp only [sendPrepare, sat_bind, sat_get, sat_ofOption, sat_emit, sat_modify]
  refine ⟨fun e' he' => ⟨e, ?_, hopnum ▸ hlt⟩, fun hnone => ?_⟩
  · obtain rfl := Option.some.inj (he.symm.trans he')
    rfl
  · rw [he] at hnone
    cases hnone

/-- All leaders of the shards do. -/
def AllRetry (S : Shards σ) (s : Sys σ) : Prop :=
  ∀ q i, S.protocol.member (.replica q i) = true → s.stopped (.replica q i) = false →
    amLeader (S.serverEnv q i) (s.state (.replica q i)) = true → Retries (S.serverEnv q i) (s.state (.replica q i))

/-- If the message makes a leader commit, it commits its last operation. -/
def commitsLast (S : Shards σ) : ∀ p, StateOf σ p → Message → Bool
  | .client _, _, _ => true
  | .replica q i, s, m => (Server.commits (S.serverEnv q i) s m).all fun k => Server.lastOp s ≤ k

/-- No leader commits while it has a later operation. -/
def Shards.CommitsLast (S : Shards σ) (s : Sys σ) : Event → Prop
  | .deliver i => (s.net[i]?).all (fun x => commitsLast S x.dst (s.state x.dst) x.msg) = true
  | .act _ _ => True

instance (S : Shards σ) (s : Sys σ) : ∀ e, Decidable (S.CommitsLast s e)
  | .deliver _ => inferInstanceAs (Decidable (_ = true))
  | .act _ _ => inferInstanceAs (Decidable True)

/-- How far the leaders have got. -/
def lead (S : Shards σ) : ∀ p, StateOf σ p → Option Progress
  | .client _, _ => none
  | .replica q i, s => if amLeader (S.serverEnv q i) s = true then some (Server.progress s) else none

variable {S : Shards σ} {past : List (Sys σ)} {t t' : Sys σ}

theorem lead_of_leader {q i : Nat} (hlead : amLeader (S.serverEnv q i) s = true) :
    lead S (.replica q i) s = some s.progress := if_pos hlead

theorem lead_of_view {q i : Nat} (hview : s'.view = s.view) : lead S (.replica q i) s' =
    if amLeader (S.serverEnv q i) s = true then some s'.progress else none := by
  rw [lead, amLeader, amLeader, hview]

/-- A log that has the operations up to the last is numbered without gaps. -/
theorem numbered_of_complete (hc : s.progress.Complete) : s.Numbered := by
  have hlog : (s.log.map fun e => e.opnum) = List.range' 1 s.lastOp := hc
  have hlength : s.log.length = s.lastOp := by
    rw [← List.length_map (f := fun e : GranolaLogEntry => e.opnum), hlog, List.length_range']
  rw [Server.Numbered, hlength, hlog]

/-- What the leaders of the shards do at an event. -/
theorem led (S : Shards σ) : Led S.protocol (lead S) S.CommitsLast := by
  refine ⟨fun p x hx => ?_, fun t e p m hm hc => ?_⟩
  · cases p with
    | client c => cases hx
    | replica q i =>
      rw [lead] at hx
      split_ifs at hx
      obtain rfl := Option.some.inj hx
      exact ⟨rfl, fun h => absurd h (Nat.lt_irrefl 0)⟩
  rcases Cluster.Event.of_handler hm with ⟨j, ⟨src, dst, msg⟩, rfl, hx, rfl, rfl⟩ | ⟨k, rfl, hact⟩
  · have hlast : S.CommitsLast t (.deliver j) ↔ commitsLast S dst (t.state dst) msg = true := by
      rw [Shards.CommitsLast, hx]
      rfl
    cases dst with
    | client c => exact (sat_state _ _).mono (fun _ _ _ _ => .inl ⟨hlast.mpr rfl, nofun⟩) fun _ _ _ => trivial
    | replica q i =>
      by_cases hlead : amLeader (S.serverEnv q i) (t.state (.replica q i)) = true
      · have hn : Server.Numbered (t.state (.replica q i)) := numbered_of_complete (hc _ (lead_of_leader hlead))
        refine Sat.mono (serverReceive_progress hn hlead src msg) (fun _ s' _ hs' => ?_) fun _ _ _ => trivial
        rw [lead_of_leader hlead, lead_of_view hs'.1, if_pos hlead]
        rcases hs'.2.cases with ⟨hC, hmoves, hle⟩ | ⟨hnot, k, hk, hcommit⟩
        · refine .inl ⟨hlast.mpr hC, fun y hy => ⟨_, rfl, ?_⟩⟩
          obtain rfl := Option.some.inj hy
          exact ⟨hmoves, hle⟩
        · exact .inr ⟨fun hC => hnot (hlast.mp hC), _, k, rfl, hk, congrArg some hcommit⟩
      · refine Sat.mono (sameView_serverReceive src msg _) (fun _ s' _ hview => .inl ⟨hlast.mpr ?_, ?_⟩)
          fun _ _ _ => trivial
        · cases msg with
          | prepareOK view opnum replicaNum =>
            rw [commitsLast, Server.commits, if_neg fun h => hlead h.1]
            rfl
          | request | prepare | commit | vote | voteRequest | finalTimestamp | reply => rfl
        · rw [lead_of_view hview, if_neg hlead]
          exact nofun
  · cases p with
    | client c => exact (sat_state _ _).mono (fun _ _ _ _ => .inl ⟨trivial, nofun⟩) fun _ _ _ => trivial
    | replica q i =>
      cases k with
      | invoke requests arg => cases hact
      | timeout =>
        have hact' : (if (t.state (.replica q i)).resendPrepareTimeout then
          some (sendPrepare (S.serverEnv q i)) else none) = some m := hact
        split_ifs at hact'
        cases Option.some.inj hact'
        refine sendPrepare_progress.mono (fun _ s' _ hs' => .inl ⟨trivial, fun y hy => ?_⟩) fun _ _ _ => trivial
        rw [lead_of_view hs'.1] at hy
        split_ifs at hy with hlead
        obtain rfl := (Option.some.inj hy).symm.trans hs'.2
        exact ⟨_, lead_of_leader hlead, .resend, fun h => absurd rfl h⟩
      | voteTimeout opnum =>
        have hact' : (if (t.state (.replica q i)).voteTimeouts opnum then
          some (sendVoteRequest (S.serverEnv q i) opnum) else none) = some m := hact
        split_ifs at hact'
        cases Option.some.inj hact'
        have hsame : Relates (Same fun s : Server σ => s) (sendVoteRequest (S.serverEnv q i) opnum) :=
          relates_get.bind fun _ => relates_ofOption.bind fun _ => .whenSome fun _ => .when relates_emit
        refine hsame.sat (fun _ s' _ (hs' : s' = t.state (.replica q i)) => .inl ⟨trivial, fun y hy => ?_⟩)
          fun _ _ => trivial
        exact ⟨y, hs' ▸ hy, .stay, fun h => absurd rfl h⟩

/-- All leaders retry when all steps meet the condition. -/
theorem allRetry_of_run (hr : Run (system S) S.CommitsLast past t) : AllRetry S t := by
  intro q i _ hrun hlead
  obtain ⟨hc, hretry⟩ := (led S).of_run hr hrun (lead_of_leader hlead)
  exact (retries_iff hc).mpr hretry

/-- The condition is exact: a step that does not meet it stops the timer, if it does not stop the leader. -/
theorem allRetry_iff (hr : Run (system S) S.CommitsLast past t) {e : Event} (hstep : (system S).step t e = some t')
    (hstopped : ∀ p, t'.stopped p = t.stopped p) : AllRetry S t' ↔ S.CommitsLast t e := by
  refine ⟨fun hall => ?_, fun hC => allRetry_of_run (hr.next hC hstep)⟩
  refine ((led S).iff_of_step hr hstep hstopped).mp fun p x hmem hrun hx => ?_
  cases p with
  | client c => cases hx
  | replica q i =>
    rw [lead] at hx
    split_ifs at hx with hlead
    obtain rfl := Option.some.inj hx
    exact fun hlt => (hall q i hmem hrun hlead hlt).1

/-- In every run in which no leader commits while it has a later operation, the leaders of both protocols go on
    retrying; a step that does not meet the condition ends that, unless it stops a process. -/
theorem leaders_retry (S : Spanner.Shards σ) (T : Shards σ) :
    (∀ past s, Run (Spanner.system S) S.CommitsLast past s → Spanner.AllRetry S s ∧
      ∀ e s', (Spanner.system S).step s e = some s' → (∀ p, s'.stopped p = s.stopped p) →
        (Spanner.AllRetry S s' ↔ S.CommitsLast s e)) ∧
    ∀ past s, Run (system T) T.CommitsLast past s → AllRetry T s ∧
      ∀ e s', (system T).step s e = some s' → (∀ p, s'.stopped p = s.stopped p) →
        (AllRetry T s' ↔ T.CommitsLast s e) :=
  ⟨fun _ _ hr => ⟨Spanner.allRetry_of_run hr, fun _ _ => Spanner.allRetry_iff hr⟩,
    fun _ _ hr => ⟨allRetry_of_run hr, fun _ _ => allRetry_iff hr⟩⟩

/-! ### Two operations under way -/

/-- An application that is content with everything. -/
def contentApp : TxnServer Unit :=
  { init := (), invokeTransaction := fun _ _ => pure ("", ⟨0, false, true, StdSet.empty, .normal⟩) }

/-- A shard of three replicas, and two clients. -/
def spannerPair : Spanner.Shards Unit :=
  { config := { n := 3, f := 1 }, clients := [0, 1], app := fun _ _ => contentApp }

def granolaPair : Shards Unit :=
  { config := { n := 3, f := 1 }, clients := [0, 1], locking := false, app := fun _ _ => contentApp }

/-- Both clients ask for something, and one replica acknowledges the first. -/
def spannerPipeline : List Spanner.Event :=
  [.act (.client 0) (.invoke (StdMap.empty.insert 0 "a")), .deliver 0,
   .act (.client 1) (.invoke (StdMap.empty.insert 0 "b")), .deliver 5, .deliver 3, .deliver 10]

def granolaPipeline : List Event :=
  [.act (.client 0) (.invoke (StdMap.empty.insert 0 "a") ⟨true, false⟩), .deliver 0,
   .act (.client 1) (.invoke (StdMap.empty.insert 0 "b") ⟨true, false⟩), .deliver 5, .deliver 3, .deliver 10]

/-- After the first operation has been logged, it is sent again until it is committed. -/
theorem leaders_retry_first :
    (∃ past s, Run (Spanner.system spannerPair) spannerPair.CommitsLast past s ∧
      Spanner.Server.lastOp (s.state (.replica 0 0)) = 1 ∧ Spanner.AllRetry spannerPair s) ∧
    ∃ past s, Run (system granolaPair) granolaPair.CommitsLast past s ∧
      Server.lastOp (s.state (.replica 0 0)) = 1 ∧ AllRetry granolaPair s := by
  constructor
  · obtain ⟨past, s, hr, hs⟩ := Run.exists_of_exec (Spanner.system spannerPair) spannerPair.CommitsLast
      (spannerPipeline.take 2) (fun s => Spanner.Server.lastOp (s.state (.replica 0 0)) = 1) (by decide)
    exact ⟨past, s, hr, of_decide_eq_true hs, ((leaders_retry spannerPair granolaPair).1 past s hr).1⟩
  · obtain ⟨past, s, hr, hs⟩ := Run.exists_of_exec (system granolaPair) granolaPair.CommitsLast
      (granolaPipeline.take 2) (fun s => Server.lastOp (s.state (.replica 0 0)) = 1) (by decide)
    exact ⟨past, s, hr, of_decide_eq_true hs, ((leaders_retry spannerPair granolaPair).2 past s hr).1⟩

/-- The commit of the first operation stops the timer for the second. -/
theorem timer_stops :
    (∃ past s, Run (Spanner.system spannerPair) (fun _ _ => True) past s ∧ ¬ Spanner.AllRetry spannerPair s) ∧
    ∃ past s, Run (system granolaPair) (fun _ _ => True) past s ∧ ¬ AllRetry granolaPair s := by
  constructor
  · obtain ⟨past, s, hr, hs⟩ := Run.exists_of_exec (Spanner.system spannerPair) (fun _ _ => True) spannerPipeline
      (fun s => s.stopped (.replica 0 0) = false ∧
        Spanner.amLeader (spannerPair.serverEnv 0 0) (s.state (.replica 0 0)) = true ∧
        Spanner.Server.lastCommitted (s.state (.replica 0 0)) = 1 ∧
        Spanner.Server.lastOp (s.state (.replica 0 0)) = 2 ∧
        Spanner.Server.resendPrepareTimeout (s.state (.replica 0 0)) = false) (by decide)
    obtain ⟨hrun, hlead, hcommitted, hlast, hoff⟩ := of_decide_eq_true hs
    refine ⟨past, s, hr, fun h => ?_⟩
    have hon := (h 0 0 (by decide) hrun hlead (by rw [hcommitted, hlast]; exact Nat.one_lt_two)).1
    rw [hoff] at hon
    cases hon
  · obtain ⟨past, s, hr, hs⟩ := Run.exists_of_exec (system granolaPair) (fun _ _ => True) granolaPipeline
      (fun s => s.stopped (.replica 0 0) = false ∧
        amLeader (granolaPair.serverEnv 0 0) (s.state (.replica 0 0)) = true ∧
        Server.lastCommitted (s.state (.replica 0 0)) = 1 ∧ Server.lastOp (s.state (.replica 0 0)) = 2 ∧
        Server.resendPrepareTimeout (s.state (.replica 0 0)) = false) (by decide +kernel)
    obtain ⟨hrun, hlead, hcommitted, hlast, hoff⟩ := of_decide_eq_true hs
    refine ⟨past, s, hr, fun h => ?_⟩
    have hon := (h 0 0 (by decide) hrun hlead (by rw [hcommitted, hlast]; exact Nat.one_lt_two)).1
    rw [hoff] at hon
    cases hon

end Dsnet.Granola
