import Dsnet.FastPaxos.Commit

/-! What a follower does: each of its handlers keeps `GoodFollower`. A follower logs a client's request
    at its next free slot, whatever the leader has there; it takes the leader's entry for the next slot
    that is not known to agree (`Node.takes`), and only then counts the slot in `lastSlowPath` and
    executes it. -/

namespace Dsnet.FastPaxos
open Handler Net.GhostInvariant

variable {E : Env} {safe : Prop} {g : Snapshot} {r k : Nat} {s t : Replica}

/-! ### What a change of the log needs -/

/-- The parts of a follower that logging leaves alone. -/
structure Logs (s t : Replica) : Prop where
  view : t.view = s.view
  status : t.status = s.status
  committed : t.lastCommitted = s.lastCommitted
  executed : t.executed = s.executed
  pending : t.pendingPrepares = s.pendingPrepares
  fast : t.lastFastPath = t.log.entries.length

/-- A follower logs a request at its next free slot. -/
theorem Node.appends {req : Request} (h : Node g r k s) (hr : r ≠ 0) (ht : Logs s t)
    (hlog : t.log.contents = s.log.contents ++ [(0, req)]) (hslow : t.lastSlowPath = s.lastSlowPath) :
    Advances r g (g.write r t.log.contents) ∧ Node (g.write r t.log.contents) r k t := by
  have hadv : Advances r g (g.write r t.log.contents) := by
    refine .follow hr fun i x hx => ⟨x, ?_, Or.inl rfl⟩
    rw [hlog, h.log]
    exact getElem?_mono (List.prefix_append ..) hx
  refine ⟨hadv, ?_⟩
  exact
    { view := ht.view.trans h.view, status := ht.status.trans h.status
      log := by simp
      views := by
        rw [Snapshot.logs_write_self, hlog, h.log]
        exact fun x hx => (List.mem_append.mp hx).elim (h.views x) (by simp +contextual)
      fast := ht.fast
      agrees := fun i hi => AgreesAt.mono hadv (h.agrees i hi)
      slow := hslow.trans_le h.slow
      committed := ht.committed.trans h.committed
      committed_le := ht.committed.trans_le h.committed_le
      executed := by
        rw [ht.executed, h.executed, ht.committed, g.logs_write_of_ne _ hr.symm] }

/-- A follower takes the leader's entry for the next slot that is not known to agree. -/
theorem Node.takes {req : Request} (h : Node g r k s) (hr : r ≠ 0) (ht : Logs s t)
    (h0 : (g.logs 0)[k]? = some (0, req)) (hk : t.log.contents[k]? = some (0, req))
    (hrest : ∀ i ≠ k, t.log.contents[i]? = s.log.contents[i]?) (hslow : t.lastSlowPath ≤ k + 1) :
    Advances r g (g.write r t.log.contents) ∧ Node (g.write r t.log.contents) r (k + 1) t := by
  have hadv : Advances r g (g.write r t.log.contents) := by
    refine .follow hr fun i x hx => ?_
    by_cases hi : i = k
    · subst hi
      exact ⟨_, hk, Or.inr h0⟩
    · exact ⟨x, by rw [hrest i hi, h.log]; exact hx, Or.inl rfl⟩
  refine ⟨hadv, ?_⟩
  exact
    { view := ht.view.trans h.view, status := ht.status.trans h.status
      log := by simp
      views := by
        rw [Snapshot.logs_write_self]
        intro x hx
        obtain ⟨i, hi⟩ := List.mem_iff_getElem?.mp hx
        by_cases hik : i = k
        · subst hik
          rw [← Option.some.inj (hk.symm.trans hi)]
        · rw [hrest i hik, h.log] at hi
          exact h.views x (List.mem_of_getElem? hi)
      fast := ht.fast
      agrees := by
        intro i hi
        rcases Nat.lt_succ_iff_lt_or_eq.mp hi with hi | rfl
        · exact AgreesAt.mono hadv (h.agrees i hi)
        · exact ⟨_, by simpa using hk, by rw [g.logs_write_of_ne _ hr.symm]; exact h0⟩
      slow := hslow
      committed := ht.committed.trans h.committed
      committed_le := ht.committed.trans_le (h.committed_le.trans (Nat.le_succ k))
      executed := by
        rw [ht.executed, h.executed, ht.committed, g.logs_write_of_ne _ hr.symm] }

/-- The contents after an entry is appended. -/
theorem contents_appended {l l' : Log} {e : LogEntry} (h : l.append e = some l') (i : Nat)
    (hi : i ≠ l.entries.length) : l'.contents[i]? = l.contents[i]? := by
  rw [Log.contents_append h]
  rcases Nat.lt_or_gt_of_ne hi with hi | hi
  · rw [List.getElem?_append_left (by simpa using hi)]
  · rw [List.getElem?_eq_none (by simp; omega), List.getElem?_eq_none (by simp; omega)]

/-- The appended entry. -/
theorem contents_appended_last {l l' : Log} {e : LogEntry} (h : l.append e = some l') :
    l'.contents[l.entries.length]? = some e.content := by
  rw [Log.contents_append h, ← Log.length_contents, List.getElem?_concat_length]

/-- The contents after the request at `k + 1` has been replaced. -/
theorem contents_replaced {l : Log} {k : Nat} (req : Request) {e : LogEntry}
    (h : l.find (k + 1) = some e) :
    (l.setRequest (k + 1) req).contents[k]? = some (e.view, req) ∧
      ∀ i ≠ k, (l.setRequest (k + 1) req).contents[i]? = l.contents[i]? := by
  refine ⟨?_, fun i hi => ?_⟩
  · have := (Log.getElem?_contents_of_find h).2
    simp only [Nat.add_sub_cancel] at this
    rw [Log.getElem?_contents_setRequest, this]
    simp [LogEntry.content]
  · rw [Log.getElem?_contents_setRequest]
    simp [hi]

/-! ### The handlers -/

/-- A follower executes what agrees with the leader's log. -/
theorem commitUpTo_follower {upto : Nat} (h : Node g E.replicaIdx k s) (hk : upto ≤ k)
    (hpending : ∀ x ∈ s.pendingPrepares, x.2.view = 0 ∧ LogsAt g x.2.opnum x.2.req) :
    Meets E safe g (commitUpTo E upto) s fun _ g' t => GoodFollower g' E.replicaIdx t ∧
      s.lastSlowPath ≤ t.lastSlowPath := by
  refine (commitUpTo_spec h hk).mono ?_
  rintro _ g' t hg ⟨hn', hc, hl, hmax, hs⟩
  refine ⟨⟨hn'.of_le ?_ (Nat.le_refl _) (by omega), fun x hx => ?_⟩, by omega⟩
  · exact hs ▸ max_le h.slow hn'.committed_le
  · rw [hc.pendingPrepares] at hx
    exact ⟨(hpending x hx).1, LogsAt.mono hg (hpending x hx).2⟩

/-- A follower replaces the request in the next slot that is not known to agree. -/
theorem replaces {req : Request} {n : Nat} {e : LogEntry} (hr : r ≠ 0) (h : Node g r k s)
    (hm : LogsAt g n req) (hn : n = k + 1) (he : s.log.find n = some e)
    {f : Nat} (hf : f ≤ k + 1) :
    let t := { s with log := s.log.setRequest n req, lastSlowPath := f }
    Advances r g (g.write r t.log.contents) ∧ Node (g.write r t.log.contents) r (k + 1) t := by
  subst hn
  obtain ⟨hat, hrest⟩ := contents_replaced req he
  have hview : e.view = 0 := by
    have hmem := (Log.getElem?_contents_of_find he).2
    exact h.views _ (h.log ▸ List.mem_of_getElem? hmem)
  rw [hview] at hat
  refine h.takes hr ?_ hm.2 hat hrest hf
  exact
    { view := rfl, status := rfl, committed := rfl, executed := rfl, pending := rfl
      fast := h.fast.trans (Log.length_entries_setRequest ..).symm }

/-- A follower logs the next slot that is not known to agree. -/
theorem logsNext {req : Request} {e : LogEntry} {l : Log} (hr : r ≠ 0) (h : Node g r k s)
    (hm : LogsAt g e.opnum req) (hk : k = s.lastFastPath) (he : e.content = (0, req))
    (hl : s.log.append e = some l) {f : Nat} (hf : f ≤ k + 1) :
    let t := { s with log := l, lastFastPath := s.lastFastPath + 1, lastSlowPath := f }
    Advances r g (g.write r t.log.contents) ∧ Node (g.write r t.log.contents) r (k + 1) t := by
  have hlen : e.opnum = s.log.entries.length + 1 := (Log.append_eq_some.mp hl).1
  have hlast : k = s.log.entries.length := hk.trans h.fast
  have h0 := hm.2
  rw [hlen, Nat.add_sub_cancel, ← hlast] at h0
  refine h.takes hr ?_ h0 ?_ ?_ hf
  · exact
      { view := rfl, status := rfl, committed := rfl, executed := rfl, pending := rfl
        fast := by simp [(Log.append_eq_some.mp hl).2, h.fast] }
  · rw [hlast, ← he]
    exact contents_appended_last hl
  · rw [hlast]
    exact fun i hi => contents_appended hl i hi

section Follower
variable (hr : E.replicaIdx ≠ 0)
include hr

theorem not_amLeader (h : s.view = 0) : ¬ amLeader E s := by
  unfold amLeader Configuration.getLeaderIndex
  rw [h, Nat.zero_mod]
  exact hr.symm

theorem requestStateTransfer_spec (h : Node g E.replicaIdx k s) :
    Meets E safe g requestStateTransfer s fun _ g' t => g' = g ∧ ∃ v o, t =
      { s with lastRequestStateTransferView := v, lastRequestStateTransferOpnum := o } := by
  unfold requestStateTransfer
  simp only [spec_get_bind, spec_ite, spec_modify_bind, spec_pure, spec_emit]
  refine ⟨fun _ => Ends.same ⟨rfl, _, _, rfl⟩, fun _ => Ends.sends ⟨rfl, _, _, rfl⟩ ?_⟩
  intro p hp
  obtain ⟨i, _, rfl⟩ := List.mem_map.mp hp
  exact ⟨E.replicaIdx, rfl, hr, h.view, h.committed.le⟩

/-- A Prepare or an acknowledgement of it is put off. -/
theorem deferPrepare_spec {remote : Addr} {msg : PrepareMessage}
    (h : GoodFollower g E.replicaIdx s) (hv : msg.view = 0) (hm : LogsAt g msg.opnum msg.req) :
    Meets E safe g (do
      requestStateTransfer
      modify fun s => { s with pendingPrepares := s.pendingPrepares ++ [(remote, msg)] }) s
      fun _ g' t => GoodFollower g' E.replicaIdx t := by
  refine Spec.bind (requestStateTransfer_spec hr h.toNode) ?_
  rintro _ g' t _ ⟨rfl, v, o, rfl⟩
  refine spec_modify.mpr (Ends.same { h with pending := ?_ })
  intro x hx
  rcases List.mem_append.mp hx with hx | hx
  · exact h.pending x hx
  · obtain rfl := List.mem_singleton.mp hx
    exact ⟨hv, hm⟩

omit hr in
theorem handleUnloggedRequest_follower {remote : Addr} {op : String}
    (h : GoodFollower g E.replicaIdx s) :
    Meets E safe g (handleUnloggedRequest E remote op) s
      fun _ g' t => GoodFollower g' E.replicaIdx t := by
  unfold handleUnloggedRequest
  simp only [spec_get_bind, spec_ite, spec_pure, spec_modify_bind, spec_emit]
  refine ⟨fun _ => Ends.same h, fun _ => Ends.sends ?_ (by simp [Net.packets])⟩
  exact { h with executed := 
    (executions_append ..).trans ((List.append_nil _).trans h.executed) }

/-- The next operation is logged, in the place of what is there. -/
theorem logPrepared_spec {msg : PrepareMessage} (h : GoodFollower g E.replicaIdx s)
    (hv : msg.view = 0) (hm : LogsAt g msg.opnum msg.req) (hnext : msg.opnum = s.lastSlowPath + 1) :
    Meets E safe g (logPrepared msg) s fun _ g' t => GoodFollower g' E.replicaIdx t ∧
      t.lastSlowPath = msg.opnum := by
  have hdone {g' : Snapshot} {t : Replica} (hadv : Advances E.replicaIdx g g')
      (hnode : Node g' E.replicaIdx (s.lastSlowPath + 1) t)
      (hs : t.lastSlowPath = s.lastSlowPath + 1) (hp : t.pendingPrepares = s.pendingPrepares) :
      (invariant E.config safe).Ends E.config.n E.replicaIdx g (fun g' t =>
        GoodFollower g' E.replicaIdx t ∧ t.lastSlowPath = msg.opnum) t ([] : List Output) := by
    refine Ends.quiet hadv ⟨⟨hs ▸ hnode, fun x hx => ?_⟩, hs.trans hnext.symm⟩
    rw [hp] at hx
    exact ⟨(h.pending x hx).1, LogsAt.mono hadv (h.pending x hx).2⟩
  have hslow := h.toNode.length_le.2
  have hfast := h.fast
  unfold logPrepared
  simp only [spec_get_bind, spec_ite, spec_assert_bind, spec_modify_bind, spec_ofOption_bind,
    spec_modify]
  refine ⟨fun hlt => ⟨fun hf => ⟨fun log hlog => ?_, fun _ => ?_⟩, fun _ => ?_⟩,
    fun hle => ⟨fun _ => ⟨fun e he => ⟨fun _ => ?_, fun _ => ?_⟩, fun _ => ?_⟩, fun _ => ?_⟩⟩
  · obtain ⟨hadv, hnode⟩ := logsNext hr h.toNode hm (by omega) (by rw [LogEntry.content, hv]) hlog
      (Nat.le_refl _)
    exact hdone hadv hnode rfl rfl
  · exact Ends.same (h.toNode.halted hr rfl rfl)
  · exact Ends.same (h.toNode.halted hr rfl rfl)
  · obtain ⟨hadv, hnode⟩ := replaces hr h.toNode hm hnext he (Nat.le_refl _)
    exact hdone hadv hnode rfl rfl
  all_goals exact Ends.same (h.toNode.halted hr rfl rfl)

theorem handleCommit_spec {msg : CommitMessage} (h : GoodFollower g E.replicaIdx s)
    (hv : msg.view = 0) (hm : LogsAt g msg.opnum msg.req) :
    Meets E safe g (handleCommit E msg) s fun _ g' t => GoodFollower g' E.replicaIdx t := by
  unfold handleCommit
  simp only [spec_get_bind, spec_ite, spec_pure, spec_assert_bind]
  refine ⟨fun _ => Ends.same h, fun _ => ⟨fun _ => Ends.same h, fun _ => ⟨fun hgt => ?_,
    fun _ => ⟨fun _ => ⟨fun _ => Ends.same h, fun _ => ⟨fun _ => ?_,
      fun _ => ⟨fun _ => Ends.same h, fun hle => ?_⟩⟩⟩, fun _ => ?_⟩⟩⟩⟩
  · rw [hv] at hgt
    exact absurd hgt (Nat.not_lt_zero _)
  · refine (requestStateTransfer_spec hr h.toNode).mono ?_
    rintro _ g' t _ ⟨rfl, v, o, rfl⟩
    exact { h with }
  · refine Spec.bind (J := fun _ g' t => ∃ k, Node g' E.replicaIdx k t ∧ msg.opnum ≤ k ∧
      ∀ x ∈ t.pendingPrepares, x.2.view = 0 ∧ LogsAt g' x.2.opnum x.2.req) ?_ ?_
    · simp only [spec_when, spec_ofOption_bind, spec_assert_bind, spec_modify]
      refine ⟨fun hlt => ⟨fun e he => ⟨fun _ => ?_, fun _ => ?_⟩, fun _ => ?_⟩, fun hslow => ?_⟩
      · have hnext : msg.opnum = s.lastSlowPath + 1 := by omega
        obtain ⟨hadv, hnode⟩ := replaces hr h.toNode hm hnext he (Nat.le_succ _)
        refine Ends.quiet hadv ⟨_, hnode, hnext.le, fun x hx => ?_⟩
        exact ⟨(h.pending x hx).1, LogsAt.mono hadv (h.pending x hx).2⟩
      · exact Ends.same (h.toNode.halted hr rfl rfl)
      · exact Ends.same (h.toNode.halted hr rfl rfl)
      · exact Ends.same ⟨_, h.toNode, by omega, h.pending⟩
    · rintro _ g' t _ ⟨k, hnode, hk, hpending⟩
      exact (commitUpTo_follower hnode hk hpending).mono fun _ _ _ _ ht => ht.1
  · exact Ends.same (h.toNode.halted hr rfl rfl)

/-- The loop over the entries of a state transfer, which start at or before `lastSlowPath`. -/
theorem installTransferred_spec : ∀ {es : List LogEntry} {a b old : Nat} {g : Snapshot} {s : Replica},
    GoodFollower g E.replicaIdx s → Log.NumberedFrom (a + 1) es →
    es.map LogEntry.content = ((g.logs 0).take b).drop a → (∀ e ∈ es, e.view = 0) →
    a ≤ s.lastSlowPath →
    Meets E safe g (installTransferred es old) s fun _ g' t => GoodFollower g' E.replicaIdx t
  | [], a, b, old, g, s, h, _, _, _, _ => Ends.same h
  | e :: es, a, b, old, g, s, h, hnum, hes, hviews, ha => by
      obtain ⟨hopnum, hnum'⟩ := Log.numberedFrom_cons.mp hnum
      obtain ⟨hview, hviews'⟩ := List.forall_mem_cons.mp hviews
      have hat : (g.logs 0)[a]? = some e.content := by
        have := congrArg (·[0]?) hes
        simp only [List.map_cons, List.getElem?_cons_zero, List.getElem?_drop, Nat.add_zero] at this
        exact getElem?_mono (List.take_prefix ..) this.symm
      have hrest : es.map LogEntry.content = ((g.logs 0).take b).drop (a + 1) := by
        rw [← List.tail_drop, ← hes]
        rfl
      have hm : LogsAt g e.opnum e.request := by
        refine ⟨by omega, ?_⟩
        rw [hopnum, Nat.add_sub_cancel, hat, LogEntry.content, hview]
      have hnext {g' : Snapshot} {t : Replica} (hadv : Advances E.replicaIdx g g')
          (hnode : Node g' E.replicaIdx (s.lastSlowPath + 1) t) (hlogs : g'.logs 0 = g.logs 0)
          (hs : t.lastSlowPath = s.lastSlowPath + 1) (hp : t.pendingPrepares = s.pendingPrepares) :
          Meets E safe g (installTransferred es old) t
            fun _ g' t => GoodFollower g' E.replicaIdx t := by
        refine Spec.advance hadv (installTransferred_spec (b := b) ⟨hs ▸ hnode, fun x hx => ?_⟩ hnum' ?_
          hviews' ?_)
        · rw [hp] at hx
          exact ⟨(h.pending x hx).1, LogsAt.mono hadv (h.pending x hx).2⟩
        · rw [hlogs]
          exact hrest
        · omega
      have hslow := h.toNode.length_le.2
      have hfast := h.fast
      unfold installTransferred
      simp only [spec_get_bind, spec_ite, spec_assert_bind, spec_modify_bind, spec_ofOption_bind]
      refine ⟨fun hc => ?_, fun hc => ⟨fun hle => ⟨fun old he => ⟨fun _ => ⟨fun _ => ⟨fun _ => ?_,
        fun _ => ?_⟩, fun hne => ?_⟩, fun _ => ?_⟩, fun _ => ?_⟩, fun hgt => ⟨fun hf =>
        ⟨fun x hx => ⟨fun _ => ?_, fun _ => ?_⟩, fun _ => ?_⟩, fun hf => ⟨fun hslot =>
        ⟨fun log hlog => ?_, fun _ => ?_⟩, fun _ => ?_⟩⟩⟩⟩
      · exact installTransferred_spec h hnum' hrest hviews' (by have := h.committed_le; omega)
      · exact installTransferred_spec h hnum' hrest hviews' (by omega)
      · exact Ends.same (h.toNode.halted hr rfl rfl)
      · -- what is there agrees with the leader's log, in its view too
        obtain ⟨x, hx, hx0⟩ := h.agrees a (by omega)
        have hsame : old.content = e.content := by
          have := (Log.getElem?_contents_of_find he).2
          rw [hopnum, Nat.add_sub_cancel, h.log, hx] at this
          rw [← Option.some.inj this, ← Option.some.inj (hx0.symm.trans hat)]
        exact absurd (congrArg Prod.fst hsame) hne
      · exact Ends.same (h.toNode.halted hr rfl rfl)
      · exact Ends.same (h.toNode.halted hr rfl rfl)
      · obtain ⟨hadv, hnode⟩ := replaces hr h.toNode hm (by omega) hx (Nat.le_refl _)
        exact hnext hadv hnode (g.logs_write_of_ne _ hr.symm) rfl rfl
      · exact Ends.same (h.toNode.halted hr rfl rfl)
      · exact Ends.same (h.toNode.halted hr rfl rfl)
      · obtain ⟨hadv, hnode⟩ := logsNext hr h.toNode (e := Log.installed e) hm (by omega)
          (by rw [Log.content_installed, LogEntry.content, hview]) hlog (Nat.le_refl _)
        exact hnext hadv hnode (g.logs_write_of_ne _ hr.symm) rfl rfl
      · exact Ends.same (h.toNode.halted hr rfl rfl)
      · exact Ends.same (h.toNode.halted hr rfl rfl)

variable (hn : E.replicaIdx < E.config.n)
include hn

/-- The slow-path acknowledgement of a slot that is known to agree. -/
theorem slowOK_good {m : PrepareOKMessage} (h : Node g E.replicaIdx k s) (hv : m.view = 0)
    (hs : m.replicaidx = E.replicaIdx) (h1 : 1 ≤ m.opnum) (hk : m.opnum ≤ k) (hp : m.slowpath ≠ 0) :
    GoodPrepareOK E.config g m where
  view := hv
  sender := hs ▸ hn
  other := hs ▸ hr
  opnum := h1
  slow _ i hi := by
    rw [hs]
    exact h.agrees i (by omega)
  fast h0 := absurd h0 hp

theorem acknowledge_spec {msg : PrepareMessage} (h : GoodFollower g E.replicaIdx s)
    (hv : msg.view = 0) (h1 : 1 ≤ msg.opnum) (hk : msg.opnum ≤ s.lastSlowPath) :
    Meets E safe g (acknowledge E msg) s fun _ g' t => GoodFollower g' E.replicaIdx t := by
  unfold acknowledge
  simp only [spec_get_bind, spec_emit]
  refine Ends.sends h fun p hp => ?_
  obtain rfl := List.mem_singleton.mp hp
  exact slowOK_good hr hn h.toNode hv rfl h1 hk (Nat.succ_ne_zero 0)

theorem followRequest_spec {req : Request} (h : GoodFollower g E.replicaIdx s)
    (hreq : g.Genuine req) :
    Meets E safe g (followRequest E req) s fun _ g' t => GoodFollower g' E.replicaIdx t := by
  unfold followRequest
  simp only [spec_get_bind, spec_modify_bind, spec_ofOption_bind, spec_emit]
  refine ⟨fun log hlog => ?_, fun _ => Ends.same (h.toNode.halted hr rfl rfl)⟩
  have hlen : s.lastFastPath + 1 = s.log.entries.length + 1 := (Log.append_eq_some.mp hlog).1
  have hcontents : log.contents = s.log.contents ++ [(0, req)] := by
    rw [Log.contents_append hlog, LogEntry.content, h.view]
  have hlogs : Logs s { s with lastFastPath := s.lastFastPath + 1, log := log } :=
    { view := rfl, status := rfl, committed := rfl, executed := rfl, pending := rfl
      fast := by simp [(Log.append_eq_some.mp hlog).2, hlen] }
  obtain ⟨hadv, hnode⟩ := h.toNode.appends hr hlogs hcontents rfl
  refine ⟨_, hadv, ⟨hnode, fun x hx => ?_⟩, ?_⟩
  · exact ⟨(h.pending x hx).1, LogsAt.mono hadv (h.pending x hx).2⟩
  · simp only [List.mem_singleton, forall_eq]
    intro p hp
    obtain rfl := List.mem_singleton.mp hp
    refine { view := h.view, sender := hn, other := hr, opnum := Nat.succ_pos _, slow := ?_, fast := ?_ }
    · exact fun h0 => absurd rfl h0
    · refine fun _ => ⟨Genuine.mono hadv hreq, (0, req), ?_, Or.inl rfl⟩
      have hfast : s.lastFastPath = s.log.contents.length := by simpa using hlen
      simp [hcontents, hfast]

theorem handleRequest_follower {remote : Addr} {req : Request} (h : GoodFollower g E.replicaIdx s)
    (hreq : g.Genuine req) :
    Meets E safe g (handleRequest E remote req) s fun _ g' t => GoodFollower g' E.replicaIdx t := by
  have hreply {m : ReplyMessage} {t : Replica} (ht : GoodFollower g E.replicaIdx t) :
      Meets E safe g (emit (.toClient remote (.reply m))) t
        fun _ g' t => GoodFollower g' E.replicaIdx t :=
    spec_emit.mpr (Ends.sends ht (by simp [Net.packets]))
  unfold handleRequest
  simp only [spec_get_bind, spec_ite, spec_pure]
  refine ⟨fun _ => Ends.same h, fun _ => ?_⟩
  simp only [spec_modify_bind]
  cases checkDuplicate s req with
  | stale => exact Ends.same { h with }
  | unreplied => exact Ends.same { h with }
  | replied reply => exact spec_whenSome.mpr ⟨fun m _ => hreply { h with }, fun _ => Ends.same { h with }⟩
  | fresh =>
    simp only [spec_modify_bind]
    rw [if_neg (not_amLeader hr h.view)]
    exact followRequest_spec hr hn { h with } hreq

theorem handlePrepare_spec {remote : Addr} {msg : PrepareMessage}
    (h : GoodFollower g E.replicaIdx s) (hv : msg.view = 0) (hm : LogsAt g msg.opnum msg.req) :
    Meets E safe g (handlePrepare E remote msg) s
      fun _ g' t => GoodFollower g' E.replicaIdx t := by
  unfold handlePrepare
  simp only [spec_get_bind, spec_ite, spec_pure, spec_assert_bind]
  refine ⟨fun _ => Ends.same h, fun _ => ⟨fun _ => Ends.same h, fun _ => ⟨fun hgt => ?_,
    fun _ => ⟨fun _ => ⟨fun hle => ?_, fun hgt => ⟨fun _ => ?_, fun hle => ?_⟩⟩, fun _ => ?_⟩⟩⟩⟩
  · rw [hv] at hgt
    exact absurd hgt (Nat.not_lt_zero _)
  · exact acknowledge_spec hr hn h hv hm.1 hle
  · exact deferPrepare_spec hr h hv hm
  · refine Spec.bind (logPrepared_spec hr h hv hm (by omega)) fun _ g' t _ hlog => ?_
    obtain ⟨ht, hs⟩ := hlog
    simp only [spec_modify_bind]
    exact acknowledge_spec hr hn { ht with } hv hm.1 hs.ge
  · exact Ends.same (h.toNode.halted hr rfl rfl)

theorem sendPrepareOKs_spec {old : Nat} (h : GoodFollower g E.replicaIdx s) :
    Meets E safe g (sendPrepareOKs E old) s fun _ g' t => GoodFollower g' E.replicaIdx t := by
  unfold sendPrepareOKs
  simp only [spec_get_bind]
  refine (Spec.forEach (I := invariant E.config safe) (fun left g' t =>
    GoodFollower g' E.replicaIdx t ∧ ∀ i ∈ left, i ≤ t.lastSlowPath) ?_ ⟨h, ?_⟩).mono
    fun _ _ _ _ ht => ht.1
  · rintro i left g t ⟨ht, hleft⟩
    obtain ⟨hi, hleft⟩ := List.forall_mem_cons.mp hleft
    unfold sendPrepareOK
    simp only [spec_get_bind, spec_ite, spec_pure, spec_ofOption_bind, spec_assert_bind,
      spec_modify_bind, spec_emit]
    refine ⟨fun _ => Ends.same ⟨ht, hleft⟩, fun hc => ⟨fun e he => ⟨fun _ => ?_, fun _ => ?_⟩,
      fun _ => ?_⟩⟩
    · refine Ends.sends ⟨{ ht with }, hleft⟩ fun p hp => ?_
      obtain rfl := List.mem_singleton.mp hp
      exact slowOK_good hr hn ht.toNode ht.view rfl (show 1 ≤ i by omega) hi (Nat.succ_ne_zero 0)
    · exact Ends.same (ht.toNode.halted hr rfl rfl)
    · exact Ends.same (ht.toNode.halted hr rfl rfl)
  · intro i hi
    have := List.mem_range'_1.mp hi
    omega

theorem resumeTransferred_spec {opnum old : Nat} (h : GoodFollower g E.replicaIdx s) :
    Meets E safe g (resumeTransferred E opnum old) s
      fun _ g' t => GoodFollower g' E.replicaIdx t := by
  unfold resumeTransferred
  simp only [spec_get_bind, spec_assert_bind]
  refine ⟨fun hle => ⟨fun _ => ?_, fun _ => ?_⟩, fun _ => ?_⟩
  · refine Spec.bind (commitUpTo_follower h.toNode hle h.pending) fun _ g₁ s₁ _ h₁ => ?_
    refine Spec.bind (sendPrepareOKs_spec hr hn h₁.1) fun _ g₂ s₂ _ h₂ => ?_
    simp only [spec_get_bind, spec_modify_bind]
    have h₃ : GoodFollower g₂ E.replicaIdx { s₂ with pendingPrepares := [] } :=
      { h₂ with pending := by simp }
    refine (Spec.forEach (I := invariant E.config safe) (fun (left : List (Addr × PrepareMessage)) g' t =>
      GoodFollower g' E.replicaIdx t ∧ ∀ x ∈ left, x.2.view = 0 ∧ LogsAt g' x.2.opnum x.2.req)
      ?_ ⟨h₃, h₂.pending⟩).mono fun _ _ _ _ ht => ht.1
    rintro ⟨remote, m⟩ left g t ⟨ht, hleft⟩
    obtain ⟨hm, hleft⟩ := List.forall_mem_cons.mp hleft
    refine (handlePrepare_spec hr hn ht hm.1 hm.2).mono fun _ g' t' hg ht' => ⟨ht', fun x hx => ?_⟩
    exact ⟨(hleft x hx).1, LogsAt.mono hg (hleft x hx).2⟩
  · exact Ends.same (h.toNode.halted hr rfl rfl)
  · exact Ends.same (h.toNode.halted hr rfl rfl)

theorem handleStateTransfer_spec {msg : StateTransferMessage} {a b : Nat}
    (h : GoodFollower g E.replicaIdx s) (hm : GoodTransfer g (g.committed E.replicaIdx) msg a b) :
    Meets E safe g (handleStateTransfer E msg) s
      fun _ g' t => GoodFollower g' E.replicaIdx t := by
  have hstart := hm.start
  have hcommitted := h.committed
  have hle := h.committed_le
  unfold handleStateTransfer
  simp only [spec_get_bind, spec_ite, spec_pure]
  refine ⟨fun _ => Ends.same h, fun _ => ?_⟩
  refine Spec.bind (installTransferred_spec hr h hm.numbered hm.entries hm.views (by omega)) ?_
  rintro old g' t hg ht
  have hview : ¬ msg.view > s.view := by
    rw [hm.view]
    exact Nat.not_lt_zero _
  simp only [when, if_neg hview]
  exact resumeTransferred_spec hr hn ht

/-! ### All of them -/

/-- A follower keeps its invariant whatever it receives. -/
theorem receiveMessage_follower {p : Net.Packet ToReplicaMessage}
    (h : GoodFollower g E.replicaIdx s) (hdst : p.dst = E.replicaIdx)
    (hp : GoodPacket E.config g p) :
    Meets E safe g (receiveMessage E p.src p.msg) s
      fun _ g' t => GoodFollower g' E.replicaIdx t := by
  unfold GoodPacket at hp
  split at hp
  · next m hm =>
    rw [hm]
    exact handlePrepare_spec hr hn h hp.2.1 hp.2.2
  · next m hm =>
    rw [hm, receiveMessage, handlePrepareOK]
    simp only [spec_get_bind, spec_ite, spec_pure]
    refine ⟨fun _ => Ends.same h, fun _ => ⟨fun _ => Ends.same h, fun _ => ⟨fun hgt => ?_,
      fun _ => ⟨fun _ => Ends.same h, fun hlead => ?_⟩⟩⟩⟩
    · rw [hp.view] at hgt
      exact absurd hgt (Nat.not_lt_zero _)
    · exact absurd hlead (not_not.mpr (not_amLeader hr h.view))
  · next m hm =>
    rw [hm]
    exact handleCommit_spec hr h hp.2.1 hp.2.2
  · next m hm =>
    obtain ⟨q, _, _, hv, _⟩ := hp
    rw [hm, receiveMessage, handleRequestStateTransfer]
    simp only [spec_get_bind, spec_ite, spec_pure]
    refine ⟨fun _ => Ends.same h, fun _ => ⟨fun hgt => ?_, fun _ => ⟨fun _ => Ends.same h,
      fun hlead => ?_⟩⟩⟩
    · rw [hv] at hgt
      exact absurd hgt (Nat.not_lt_zero _)
    · exact absurd hlead (not_not.mpr (not_amLeader hr h.view))
  · next m hm =>
    obtain ⟨_, a, b, ht⟩ := hp
    rw [hm]
    rw [hdst] at ht
    exact handleStateTransfer_spec hr hn h ht
  · exact hp.elim

theorem ask_follower {G : Group} {remote : Addr} {c : Nat} {q : Ask}
    (h : GoodFollower g E.replicaIdx s) (hop : g.op = G.op) :
    Meets E safe g (receiveMessage E remote (G.ask c q)) s
      fun _ g' t => GoodFollower g' E.replicaIdx t := by
  cases q with
  | request i => exact handleRequest_follower hr hn h ⟨by rw [hop], rfl⟩
  | unlogged op => exact handleUnloggedRequest_follower h

omit hn in
theorem timeout_follower {u : Timer} (h : GoodFollower g E.replicaIdx s) :
    Meets E safe g (timeout E u) s fun _ g' t => GoodFollower g' E.replicaIdx t := by
  cases u with
  | stateTransfer => exact Ends.same { h with }
  | resendPrepare =>
    rw [timeout, resendPrepare]
    simp only [spec_get_bind, spec_assert_bind]
    exact ⟨fun hlead => absurd hlead (not_amLeader hr h.view),
      fun _ => Ends.same (h.toNode.halted hr rfl rfl)⟩

end Follower

end Dsnet.FastPaxos
