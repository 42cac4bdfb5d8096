import Dsnet.FastPaxos.Invariant

/-! What `CommitUpTo` does to a replica whose first slots agree with the leader's log: it executes the
    leader's requests, and leaves all else alone (`Commits`). -/

namespace Dsnet.FastPaxos
open Handler Net.GhostInvariant

/-- From ghost `g` and state `s`, the handler of this replica keeps the invariant and ends with `J`. -/
abbrev Meets {α : Type} (E : Env) (safe : Prop) (g : Snapshot) (m : FPHandler α) (s : Replica)
    (J : α → Snapshot → Replica → Prop) : Prop :=
  (invariant E.config safe).Spec E.config.n E.replicaIdx g m s J

/-- What committing may change. -/
structure Commits (s t : Replica) : Prop where
  view : t.view = s.view
  status : t.status = s.status
  fast : t.lastFastPath = s.lastFastPath
  contents : t.log.contents = s.log.contents
  pendingPrepares : t.pendingPrepares = s.pendingPrepares
  pendingPrepareOKs : t.pendingPrepareOKs = s.pendingPrepareOKs
  lastPrepare : t.lastPrepare = s.lastPrepare
  slowQuorum : t.slowPrepareOKQuorum = s.slowPrepareOKQuorum
  fastQuorum : t.fastPrepareOKQuorum = s.fastPrepareOKQuorum
  committed : s.lastCommitted ≤ t.lastCommitted
  table : ∀ c, (s.clientEntry c).lastReqId ≤ (t.clientEntry c).lastReqId ∧
    (s.clientTable c ≠ none → t.clientTable c ≠ none)

theorem Commits.refl (s : Replica) : Commits s s :=
  ⟨rfl, rfl, rfl, rfl, rfl, rfl, rfl, rfl, rfl, Nat.le_refl _, fun _ => ⟨Nat.le_refl _, id⟩⟩

theorem Commits.trans {s t u : Replica} (h : Commits s t) (h' : Commits t u) : Commits s u where
  view := h'.view.trans h.view
  status := h'.status.trans h.status
  fast := h'.fast.trans h.fast
  contents := h'.contents.trans h.contents
  pendingPrepares := h'.pendingPrepares.trans h.pendingPrepares
  pendingPrepareOKs := h'.pendingPrepareOKs.trans h.pendingPrepareOKs
  lastPrepare := h'.lastPrepare.trans h.lastPrepare
  slowQuorum := h'.slowQuorum.trans h.slowQuorum
  fastQuorum := h'.fastQuorum.trans h.fastQuorum
  committed := h.committed.trans h'.committed
  table c := ⟨(h.table c).1.trans (h'.table c).1, fun hc => (h'.table c).2 ((h.table c).2 hc)⟩

/-- The entry of a client after a write to the client table. -/
theorem clientEntry_setClientEntry (s : Replica) (k : Nat) (e : ClientTableEntry) (c : Nat) :
    (s.setClientEntry k e).clientEntry c = if c = k then e else s.clientEntry c := by
  unfold Replica.setClientEntry Replica.clientEntry
  simp only
  split_ifs <;> rfl

/-- A write of a later entry. -/
theorem table_setClientEntry {s : Replica} {k : Nat} {e : ClientTableEntry}
    (he : (s.clientEntry k).lastReqId ≤ e.lastReqId) (c : Nat) :
    (s.clientEntry c).lastReqId ≤ ((s.setClientEntry k e).clientEntry c).lastReqId ∧
      (s.clientTable c ≠ none → (s.setClientEntry k e).clientTable c ≠ none) := by
  rw [clientEntry_setClientEntry]
  refine ⟨?_, fun hc => ?_⟩
  · split_ifs with h
    · subst h
      exact he
    · exact Nat.le_refl _
  · simp only [Replica.setClientEntry]
    split_ifs
    · simp
    · exact hc

theorem table_recordReply (s : Replica) (req : Request) (m : ReplyMessage) (c : Nat) :
    (s.clientEntry c).lastReqId ≤ ((recordReply s req m).clientEntry c).lastReqId ∧
      (s.clientTable c ≠ none → (recordReply s req m).clientTable c ≠ none) := by
  refine table_setClientEntry ?_ c
  split_ifs with h
  · exact h
  · exact Nat.le_refl _

theorem table_updateClientTable (s : Replica) (req : Request) (c : Nat) :
    (s.clientEntry c).lastReqId ≤ ((updateClientTable s req).clientEntry c).lastReqId ∧
      (s.clientTable c ≠ none → (updateClientTable s req).clientTable c ≠ none) := by
  refine table_setClientEntry ?_ c
  split_ifs with h
  · exact Nat.le_refl _
  · exact (not_le.mp h).le

/-- The entry of the client afterwards. -/
theorem entry_updateClientTable (s : Replica) (req : Request) :
    req.clientreqid ≤ ((updateClientTable s req).clientEntry req.clientid).lastReqId ∧
      (updateClientTable s req).clientTable req.clientid ≠ none := by
  unfold updateClientTable
  rw [clientEntry_setClientEntry, if_pos rfl]
  refine ⟨?_, by simp [Replica.setClientEntry]⟩
  split_ifs with h
  · exact h
  · exact Nat.le_refl _

theorem Node.of_le {g : Snapshot} {r j k : Nat} {s : Replica} (h : Node g r k s) (hjk : j ≤ k)
    (hslow : s.lastSlowPath ≤ j) (hc : s.lastCommitted ≤ j) : Node g r j s :=
  { h with agrees := fun i hi => h.agrees i (by omega), slow := hslow, committed_le := hc }

variable {E : Env} {safe : Prop} {g : Snapshot} {k : Nat} {s : Replica}

theorem commitNext_spec (h : Node g E.replicaIdx k s) (hk : s.lastCommitted < k) :
    Meets E safe g (commitNext E) s fun _ g' t => Node g' E.replicaIdx k t ∧ Commits s t ∧
      g'.logs = g.logs ∧ t.lastCommitted = s.lastCommitted + 1 ∧
      t.lastSlowPath = s.lastSlowPath := by
  obtain ⟨x, hr, h0⟩ := h.agrees _ hk
  rw [← h.log] at hr
  unfold commitNext
  simp only [spec_modify_bind, spec_get_bind, spec_ofOption_bind]
  refine ⟨fun e he => ?_, fun hnone => ?_⟩
  · obtain rfl : e.content = x := by
      have := (Log.getElem?_contents_of_find he).2
      simp only [Nat.add_sub_cancel] at this
      exact Option.some.inj (this.symm.trans hr)
    set t := recordReply { s with
      lastCommitted := s.lastCommitted + 1
      upcalls := s.upcalls ++ [.execute (s.lastCommitted + 1) e.request]
      log := s.log.setStatus (s.lastCommitted + 1) .committed } e.request _ with ht
    have hadv : Advances E.replicaIdx g (g.commit E.replicaIdx (s.lastCommitted + 1)) :=
      .commit (by have := h.committed; omega)
    have hexec : t.executed = (opnumbered (g.logs 0)).take (s.lastCommitted + 1) := by
      rw [take_opnumbered_succ h0, ← h.executed]
      exact executions_append ..
    have hnode : Node (g.commit E.replicaIdx (s.lastCommitted + 1)) E.replicaIdx k t :=
      { view := h.view, status := h.status, views := h.views, agrees := h.agrees, slow := h.slow
        executed := hexec, committed_le := hk
        log := (Log.contents_setStatus ..).trans h.log
        fast := h.fast.trans (Log.length_entries_setStatus ..).symm
        committed := by simp [ht, recordReply, Replica.setClientEntry] }
    have hcommits : Commits s t :=
      { view := rfl, status := rfl, fast := rfl, pendingPrepares := rfl, pendingPrepareOKs := rfl
        lastPrepare := rfl, slowQuorum := rfl, fastQuorum := rfl
        contents := Log.contents_setStatus ..
        committed := Nat.le_succ _
        table := fun c => table_recordReply _ e.request _ c }
    refine Spec.advance hadv (spec_whenSome.mpr ⟨fun a _ => ?_, fun _ => ?_⟩)
    · refine spec_emit.mpr (Ends.sends ?_ ?_)
      · exact ⟨hnode, hcommits, rfl, rfl, rfl⟩
      · simp [Net.packets]
    · exact Ends.same ⟨hnode, hcommits, rfl, rfl, rfl⟩
  · have hlast : s.log.entries.length < s.lastCommitted + 1 :=
      (Log.find_eq_none (Nat.succ_pos _)).mp hnone
    have := h.length_le.2
    omega

/-- `CommitUpTo` executes the leader's requests up to `upto`, when the slots up to there agree. -/
theorem commitUpTo_spec {upto : Nat} (h : Node g E.replicaIdx k s) (hk : upto ≤ k) :
    Meets E safe g (commitUpTo E upto) s fun _ g' t => Node g' E.replicaIdx k t ∧ Commits s t ∧
      g'.logs = g.logs ∧ t.lastCommitted = max s.lastCommitted upto ∧
      t.lastSlowPath = max s.lastSlowPath t.lastCommitted := by
  unfold commitUpTo
  simp only [spec_get_bind]
  have hloop : Meets E safe g (iterate (upto - s.lastCommitted) (commitNext E)) s fun _ g' t =>
      Node g' E.replicaIdx k t ∧ Commits s t ∧ g'.logs = g.logs ∧
        t.lastCommitted + 0 = max s.lastCommitted upto ∧ t.lastSlowPath = s.lastSlowPath := by
    refine Spec.iterate (fun left g' t => Node g' E.replicaIdx k t ∧ Commits s t ∧
      g'.logs = g.logs ∧ t.lastCommitted + left = max s.lastCommitted upto ∧
      t.lastSlowPath = s.lastSlowPath) ?_ ⟨h, .refl s, rfl, by omega, rfl⟩
    rintro left g' t ⟨hn, hc, hl, hmax, hs⟩
    have := h.committed_le
    refine (commitNext_spec hn (by omega)).mono ?_
    rintro _ g'' u _ ⟨hn', hc', hl', hu, hs'⟩
    exact ⟨hn', hc.trans hc', hl'.trans hl, by omega, hs'.trans hs⟩
  refine Spec.bind hloop fun _ g' t _ ⟨hn, hc, hl, hmax, hs⟩ => ?_
  simp only [spec_modify_bind, spec_get_bind, spec_assert]
  have hlen := hn.length_le.2
  refine ⟨fun _ => Ends.same ⟨?_, ?_, hl, hmax, ?_⟩, fun hfail => ?_⟩
  · exact { hn with slow := max_le hn.slow hn.committed_le }
  · exact { hc with }
  · rw [hs]
  · have := hn.fast
    have := hn.committed_le
    omega

end Dsnet.FastPaxos
