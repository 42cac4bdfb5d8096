import Dsnet.Lib.Frame
import Dsnet.Spanner.Client
import Dsnet.Transaction.Progress

/-! `SpannerServer::resendPrepareTimeout`: the leader sends the PREPARE of its last operation again as long as an
    operation is not committed, but for the one timer that there is for all of them. -/

namespace Dsnet.Spanner
open Handler Transaction

variable {σ : Type} {E : ServerEnv σ} {s s' : Server σ}

/-- How far a leader has got. -/
def Server.progress (s : Server σ) : Progress where
  opnums := s.log.map fun e => e.opnum
  lastOp := s.lastOp
  lastCommitted := s.lastCommitted
  resend := s.resendPrepareTimeout

/-- The operation up to which the leader commits at a message. -/
def Server.commits (E : ServerEnv σ) (s : Server σ) : Message → Option Nat
  | .prepareOK view opnum replicaNum =>
    if amLeader E s = true ∧ s.lastCommitted < opnum ∧
        ((s.prepareOKQuorum.add (view, opnum) replicaNum ()).checkForQuorum (view, opnum)).isSome
      then some opnum else none
  | _ => none

/-! ### What the handlers of a leader do to it -/

/-- It is as before, and so is the view. -/
abbrev Stays : Server σ → Server σ → Prop := Same fun s => (s.view, s.progress)

theorem stays_updateClientTable (req : Request) : Relates Stays (updateClientTable req : ServerHandler σ Unit) :=
  relates_get.bind fun _ => relates_assert.bind fun _ => same_modify fun _ => rfl

theorem stays_executeTxn (entry : SpannerLogEntry) : Relates Stays (executeTxn E entry) := by
  refine relates_assert.bind fun _ => relates_assert.bind fun _ => .bind ?_ fun _ => relates_assert.bind fun _ =>
    relates_assert.bind fun _ => .bind (same_modify fun _ => rfl) fun _ => relates_get.bind fun _ =>
    .when (.whenSome fun _ => relates_emit)
  exact relates_get.bind fun _ => .bind (same_modify fun _ => rfl) fun _ => relates_ofOption

/-- The next operation is committed. -/
theorem commitNext_progress : Sat (commitNext E) s (fun _ s' _ => s'.view = s.view ∧
    s'.progress = { s.progress with lastCommitted := s.lastCommitted + 1 }) fun _ _ => True := by
  simp only [commitNext, sat_bind, sat_modify, sat_get, sat_ofOption, sat_when]
  refine ⟨fun entry hentry => ⟨fun _ => ?_, fun _ => ⟨trivial, rfl⟩⟩, fun _ => trivial⟩
  refine (stays_executeTxn _).sat (fun _ s' _ hs' => ?_) fun _ _ => trivial
  obtain ⟨hview, hprogress⟩ := Prod.mk.inj hs'
  have hopnums : (setEntry s.log (s.lastCommitted + 1) { entry with state := .committed }).map (fun e => e.opnum) =
      s.log.map fun e => e.opnum := map_setEntry hentry rfl
  refine ⟨hview, hprogress.trans ?_⟩
  rw [Server.progress, Server.progress, hopnums]

theorem iterate_progress : ∀ (n : Nat) {s : Server σ}, Sat (iterate n (commitNext E)) s
    (fun _ s' _ => s'.view = s.view ∧
      s'.progress = { s.progress with lastCommitted := s.lastCommitted + n }) fun _ _ => True
  | 0, _ => ⟨rfl, rfl⟩
  | n + 1, s => by
      rw [iterate, sat_bind]
      refine commitNext_progress.mono (fun _ t _ ht => ?_) fun _ _ _ => trivial
      have hcommitted : t.lastCommitted = s.lastCommitted + 1 := congrArg Progress.lastCommitted ht.2
      refine (iterate_progress n).mono (fun _ s' _ hs' => ⟨hs'.1.trans ht.1, ?_⟩) fun _ _ _ => trivial
      rw [hs'.2, ht.2, hcommitted, Nat.add_right_comm, Nat.add_assoc]

theorem commitUpTo_progress {k : Nat} (hk : s.lastCommitted < k) :
    Sat (commitUpTo E k) s (fun _ s' _ => s'.view = s.view ∧ s'.progress = s.progress.commit k) fun _ _ => True := by
  simp only [commitUpTo, sat_bind, sat_get, sat_when, sat_emit, sat_modify, gt_iff_lt, hk, forall_const,
    not_true_eq_false, false_imp_iff, and_true, true_and]
  have hall : Sat (iterate (k - s.lastCommitted) (commitNext E)) { s with resendPrepareTimeout := false }
      (fun _ s' _ => s'.view = s.view ∧ s'.progress = s.progress.commit k) fun _ _ => True := by
    refine (iterate_progress _).mono (fun _ s' _ hs' => ⟨hs'.1, hs'.2.trans ?_⟩) fun _ _ _ => trivial
    show ({ s.progress with lastCommitted := s.lastCommitted + (k - s.lastCommitted), resend := false } : Progress) = _
    rw [Nat.add_sub_cancel' hk.le]
    rfl
  exact ⟨fun _ => hall, fun _ => hall⟩

/-- What is committed already is not committed again. -/
theorem commitUpTo_of_le {k : Nat} (hk : k ≤ s.lastCommitted) {Q : Unit → Server σ → List Output → Prop}
    (hQ : Q () s []) : Sat (commitUpTo E k) s Q fun _ _ => True := by
  simp only [commitUpTo, sat_bind, sat_get, sat_when, gt_iff_lt, Nat.not_lt.mpr hk, Nat.sub_eq_zero_of_le hk, iterate,
    sat_pure]
  exact ⟨fun h => h.1.elim, fun _ => ⟨fun h => h.elim, fun _ => hQ⟩⟩

/-- The PREPARE of the last operation is sent. -/
theorem sendPrepare_progress : Sat (sendPrepare E) s (fun _ s' _ => s'.view = s.view ∧
    s'.progress = { s.progress with resend := true }) fun _ _ => True := by
  simp only [sendPrepare, sat_bind, sat_get, sat_ofOption, sat_emit, sat_modify]
  exact ⟨fun _ _ => ⟨trivial, rfl⟩, fun _ => trivial⟩

theorem logRequest_progress (d : TxnData) (req : Request) :
    Sat (logRequest E d req) s (fun _ s' _ => s'.view = s.view ∧ s'.progress = s.progress.log) fun _ _ => True := by
  rw [logRequest, sat_bind]
  refine (stays_updateClientTable req).sat (fun _ t _ ht => ?_) fun _ _ => trivial
  obtain ⟨hview, hprogress⟩ := Prod.mk.inj ht
  simp only [append, sat_bind, sat_modify, sat_get, sat_assert]
  refine ⟨fun _ => ⟨fun _ => ?_, fun _ => trivial⟩, fun _ => trivial⟩
  refine sendPrepare_progress.mono (fun _ s' _ hs' => ⟨hs'.1.trans hview, hs'.2.trans ?_⟩) fun _ _ _ => trivial
  rw [← hprogress]
  simp [Server.progress, Progress.log]

/-- What a message to the leader comes to. -/
theorem serverReceive_progress (hlead : amLeader E s = true) (remote : Node) (m : Message) :
    Sat (serverReceive E remote m) s (fun _ s' _ => s'.view = s.view ∧ s.progress.After (s.commits E m) s'.progress)
      fun _ _ => True := by
  cases m with
  | request d req =>
    show Sat (handleClientRequest E remote d req) s _ _
    rw [handleClientRequest, sat_bind, sat_modify, sat_bind, sat_get]
    have hstay : s.progress.Moves s.progress ∧ s.lastCommitted = s.lastCommitted := ⟨.stay, rfl⟩
    have hlog : ∀ t : Server σ, t.view = s.view → t.progress = s.progress → Sat (logRequest E d req) t
        (fun _ s' _ => s'.view = s.view ∧ s.progress.Moves s'.progress ∧ s'.lastCommitted = s.lastCommitted)
        fun _ _ => True := fun t hview hprogress =>
      (logRequest_progress d req).mono (fun _ s' _ hs' => ⟨hs'.1.trans hview,
        by rw [hs'.2, hprogress]; exact .log,
        (congrArg Progress.lastCommitted hs'.2).trans (congrArg Progress.lastCommitted hprogress)⟩)
        fun _ _ _ => trivial
    refine sat_when.mpr ⟨fun _ => ?_, fun _ => ⟨rfl, hstay⟩⟩
    split
    · refine sat_ite.mpr ⟨fun _ => ⟨rfl, hstay⟩, fun _ => sat_ite.mpr ⟨fun _ => sat_when.mpr
        ⟨fun _ => ⟨rfl, hstay⟩, fun _ => ⟨rfl, hstay⟩⟩, fun _ => hlog _ rfl rfl⟩⟩
    · exact hlog _ rfl rfl
  | prepare view opnum d req =>
    show Sat (handlePrepare E view opnum d req) s _ _
    rw [handlePrepare, sat_bind, sat_get, sat_bind, sat_assert]
    exact ⟨fun h => (by rw [hlead] at h; cases h), fun _ => trivial⟩
  | prepareOK view opnum replicaNum =>
    show Sat (handlePrepareOK E view opnum replicaNum) s _ _
    simp only [handlePrepareOK, sat_bind, sat_get, sat_assert, sat_modify, sat_whenSome, Server.commits, hlead,
      forall_const, true_and, not_true_eq_false, false_imp_iff, and_true]
    refine ⟨fun _ hq => ?_, fun hq => ?_⟩
    · rcases Nat.lt_or_ge s.lastCommitted opnum with hlt | hge
      · rw [if_pos ⟨hlt, by rw [hq]; rfl⟩]
        exact Sat.mono (commitUpTo_progress hlt) (fun _ _ _ hs' => ⟨hs'.1, hlt, hs'.2⟩) fun _ _ _ => trivial
      · rw [if_neg fun h => Nat.not_lt.mpr hge h.1]
        refine commitUpTo_of_le ?_ ⟨rfl, .stay, rfl⟩
        exact hge
    · rw [if_neg fun h => by rw [hq] at h; cases h.2]
      exact ⟨.stay, rfl⟩
  | commit view opnum =>
    show Sat (handleCommit E opnum) s _ _
    rw [handleCommit, sat_bind, sat_get, sat_bind, sat_assert]
    exact ⟨fun h => (by rw [hlead] at h; cases h), fun _ => trivial⟩
  | reply msg => exact trivial

/-! The view never changes. -/

abbrev SameView : Server σ → Server σ → Prop := Same Server.view

theorem sameView_of_stays {α : Type} {h : ServerHandler σ α} (hh : Relates Stays h) : Relates SameView h :=
  hh.mono fun _ _ hs => (Prod.mk.inj hs).1

theorem sameView_append (e : SpannerLogEntry) : Relates SameView (append e : ServerHandler σ Unit) :=
  relates_get.bind fun _ => relates_assert.bind fun _ => same_modify fun _ => rfl

theorem sameView_logRequest (d : TxnData) (req : Request) : Relates SameView (logRequest E d req) := fun _ =>
  (logRequest_progress d req).mono (fun _ _ _ h => h.1) fun _ _ _ => trivial

theorem sameView_handleClientRequest (remote : Node) (d : TxnData) (req : Request) :
    Relates SameView (handleClientRequest E remote d req) := by
  refine .bind (same_modify fun _ => rfl) fun _ => relates_get.bind fun s => .when ?_
  cases s.clientTable req.clientid with
  | none => exact sameView_logRequest d req
  | some entry => exact relates_pure.ite ((relates_emit.when).ite (sameView_logRequest d req))

theorem sameView_handlePrepare (view opnum : Nat) (d : TxnData) (req : Request) :
    Relates SameView (handlePrepare E view opnum d req) := by
  have hfill : Relates SameView (fillLog view : ServerHandler σ Unit) :=
    .bind (same_modify fun _ => rfl) fun _ => relates_get.bind fun _ => sameView_append _
  refine relates_get.bind fun _ => relates_assert.bind fun _ => relates_emit.ite ?_
  refine (hfill.iterate _).bind fun _ => .bind (same_modify fun _ => rfl) fun _ => relates_get.bind fun _ => ?_
  exact relates_assert.bind fun _ => (sameView_append _).bind fun _ =>
    (sameView_of_stays (stays_updateClientTable req)).bind fun _ => relates_emit

theorem sameView_commitUpTo (opnum : Nat) : Relates SameView (commitUpTo E opnum) := by
  have hnext : Relates SameView (commitNext E) := fun _ =>
    commitNext_progress.mono (fun _ _ _ h => h.1) fun _ _ _ => trivial
  exact relates_get.bind fun _ => .bind (.when relates_emit) fun _ => .bind (.when (same_modify fun _ => rfl)) fun _ =>
    hnext.iterate _

theorem sameView_serverReceive (remote : Node) (m : Message) : Relates SameView (serverReceive E remote m) := by
  cases m with
  | request d req => exact sameView_handleClientRequest remote d req
  | prepare view opnum d req => exact sameView_handlePrepare view opnum d req
  | prepareOK view opnum replicaNum =>
    exact relates_get.bind fun _ => relates_assert.bind fun _ => .bind (same_modify fun _ => rfl) fun _ =>
      relates_get.bind fun _ => .whenSome fun _ => sameView_commitUpTo opnum
  | commit view opnum =>
    exact relates_get.bind fun _ => relates_assert.bind fun _ => .when (sameView_commitUpTo opnum)
  | reply msg => exact relates_abort

/-! ### Runs of the shards -/

/-- The leader goes on retrying: while an operation is not committed the timer runs, and what it sends is the
    PREPARE of an operation that is not committed. -/
def Retries (E : ServerEnv σ) (s : Server σ) : Prop :=
  s.lastCommitted < s.lastOp → s.resendPrepareTimeout = true ∧
    Sat (sendPrepare E) s (fun _ _ o => ∃ e : SpannerLogEntry,
      o = [E.toAll (.prepare e.view e.opnum e.txnData e.request)] ∧ s.lastCommitted < e.opnum) fun _ _ => False

theorem retries_iff (hc : s.progress.Complete) : Retries E s ↔ s.progress.Retrying := by
  refine ⟨fun h hlt => (h hlt).1, fun h hlt => ⟨h hlt, ?_⟩⟩
  obtain ⟨e, (he : findEntry s.log s.lastOp = some e), hopnum⟩ := exists_findEntry hc (Nat.zero_lt_of_lt hlt)
  simp only [sendPrepare, sat_bind, sat_get, sat_ofOption, sat_emit, sat_modify]
  refine ⟨fun e' he' => ⟨e, ?_, hopnum ▸ hlt⟩, fun hnone => ?_⟩
  · obtain rfl := Option.some.inj (he.symm.trans he')
    rfl
  · rw [he] at hnone
    cases hnone

/-- All leaders of the shards do. -/
def AllRetry (S : Shards σ) (s : Sys σ) : Prop :=
  ∀ q i, S.protocol.member (.replica q i) = true → s.stopped (.replica q i) = false →
    amLeader (S.serverEnv q i) (s.state (.replica q i)) = true → Retries (S.serverEnv q i) (s.state (.replica q i))

/-- If the message makes a leader commit, it commits its last operation. -/
def commitsLast (S : Shards σ) : ∀ p, StateOf σ p → Message → Bool
  | .client _, _, _ => true
  | .replica q i, s, m => (Server.commits (S.serverEnv q i) s m).all fun k => Server.lastOp s ≤ k

/-- No leader commits while it has a later operation. -/
def Shards.CommitsLast (S : Shards σ) (s : Sys σ) : Event → Prop
  | .deliver i => (s.net[i]?).all (fun x => commitsLast S x.dst (s.state x.dst) x.msg) = true
  | .act _ _ => True

instance (S : Shards σ) (s : Sys σ) : ∀ e, Decidable (S.CommitsLast s e)
  | .deliver _ => inferInstanceAs (Decidable (_ = true))
  | .act _ _ => inferInstanceAs (Decidable True)

/-- How far the leaders have got. -/
def lead (S : Shards σ) : ∀ p, StateOf σ p → Option Progress
  | .client _, _ => none
  | .replica q i, s => if amLeader (S.serverEnv q i) s = true then some (Server.progress s) else none

variable {S : Shards σ} {past : List (Sys σ)} {t t' : Sys σ}

theorem lead_of_leader {q i : Nat} (hlead : amLeader (S.serverEnv q i) s = true) :
    lead S (.replica q i) s = some s.progress := if_pos hlead

theorem lead_of_view {q i : Nat} (hview : s'.view = s.view) : lead S (.replica q i) s' =
    if amLeader (S.serverEnv q i) s = true then some s'.progress else none := by
  rw [lead, amLeader, amLeader, hview]

/-- What the leaders of the shards do at an event. -/
theorem led (S : Shards σ) : Led S.protocol (lead S) S.CommitsLast := by
  refine ⟨fun p x hx => ?_, fun t e p m hm hc => ?_⟩
  · cases p with
    | client c => cases hx
    | replica q i =>
      rw [lead] at hx
      split_ifs at hx
      obtain rfl := Option.some.inj hx
      exact ⟨rfl, fun h => absurd h (Nat.lt_irrefl 0)⟩
  rcases Cluster.Event.of_handler hm with ⟨j, ⟨src, dst, msg⟩, rfl, hx, rfl, rfl⟩ | ⟨k, rfl, hact⟩
  · have hlast : S.CommitsLast t (.deliver j) ↔ commitsLast S dst (t.state dst) msg = true := by
      rw [Shards.CommitsLast, hx]
      rfl
    cases dst with
    | client c => exact (sat_state _ _).mono (fun _ _ _ _ => .inl ⟨hlast.mpr rfl, nofun⟩) fun _ _ _ => trivial
    | replica q i =>
      by_cases hlead : amLeader (S.serverEnv q i) (t.state (.replica q i)) = true
      · refine Sat.mono (serverReceive_progress hlead src msg) (fun _ s' _ hs' => ?_) fun _ _ _ => trivial
        rw [lead_of_leader hlead, lead_of_view hs'.1, if_pos hlead]
        rcases hs'.2.cases with ⟨hC, hmoves, hle⟩ | ⟨hnot, k, hk, hcommit⟩
        · refine .inl ⟨hlast.mpr hC, fun y hy => ⟨_, rfl, ?_⟩⟩
          obtain rfl := Option.some.inj hy
          exact ⟨hmoves, hle⟩
        · exact .inr ⟨fun hC => hnot (hlast.mp hC), _, k, rfl, hk, congrArg some hcommit⟩
      · refine Sat.mono (sameView_serverReceive src msg _) (fun _ s' _ hview => .inl ⟨hlast.mpr ?_, ?_⟩)
          fun _ _ _ => trivial
        · cases msg with
          | prepareOK view opnum replicaNum =>
            rw [commitsLast, Server.commits, if_neg fun h => hlead h.1]
            rfl
          | request | prepare | commit | reply => rfl
        · rw [lead_of_view hview, if_neg hlead]
          exact nofun
  · cases p with
    | client c => exact (sat_state _ _).mono (fun _ _ _ _ => .inl ⟨trivial, nofun⟩) fun _ _ _ => trivial
    | replica q i =>
      cases k with
      | invoke requests => cases hact
      | timeout =>
        have hact' : (if (t.state (.replica q i)).resendPrepareTimeout then
          some (sendPrepare (S.serverEnv q i)) else none) = some m := hact
        split_ifs at hact'
        cases Option.some.inj hact'
        refine sendPrepare_progress.mono (fun _ s' _ hs' => .inl ⟨trivial, fun y hy => ?_⟩) fun _ _ _ => trivial
        rw [lead_of_view hs'.1] at hy
        split_ifs at hy with hlead
        obtain rfl := (Option.some.inj hy).symm.trans hs'.2
        exact ⟨_, lead_of_leader hlead, .resend, fun h => absurd rfl h⟩

/-- All leaders retry when all steps meet the condition. -/
theorem allRetry_of_run (hr : Run (system S) S.CommitsLast past t) : AllRetry S t := by
  intro q i _ hrun hlead
  obtain ⟨hc, hretry⟩ := (led S).of_run hr hrun (lead_of_leader hlead)
  exact (retries_iff hc).mpr hretry

/-- The condition is exact: a step that does not meet it stops the timer, if it does not stop the leader. -/
theorem allRetry_iff (hr : Run (system S) S.CommitsLast past t) {e : Event} (hstep : (system S).step t e = some t')
    (hstopped : ∀ p, t'.stopped p = t.stopped p) : AllRetry S t' ↔ S.CommitsLast t e := by
  refine ⟨fun hall => ?_, fun hC => allRetry_of_run (hr.next hC hstep)⟩
  refine ((led S).iff_of_step hr hstep hstopped).mp fun p x hmem hrun hx => ?_
  cases p with
  | client c => cases hx
  | replica q i =>
    rw [lead] at hx
    split_ifs at hx with hlead
    obtain rfl := Option.some.inj hx
    exact fun hlt => (hall q i hmem hrun hlead hlt).1

end Dsnet.Spanner
