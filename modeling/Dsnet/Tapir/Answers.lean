import Dsnet.Tapir.Invariant

/-! The replicas keep the invariant of the shard: a PREPARE that is proposed is executed once, and a replica
    that says OK of it has prepared, or has been told so. The exception is a PREPARE that is proposed
    again before it is finalized: the replica answers with the empty result of its record, which says OK,
    also when the execution was blocked. -/

namespace Dsnet.Tapir
open Handler Transaction

variable {σ : Type} {S : Shard σ} {W U : Prop} {J : σ → Prop} {g g' : History S W} {i : Nat}
  {s : Server σ}

/-- The ghost of a process of the shard. -/
abbrev shardGhost (S : Shard σ) (W U : Prop) (J : σ → Prop) (p : Node) :=
  (shardInvariant S W U J).ghost p

/-- A message to one process. -/
theorem sent_one {p dst : Node} {m : Message} (h : GoodPacket g ⟨p, dst, m⟩) :
    (shardGhost S W U J p).sent g ⟨[dst], m⟩ := by
  intro y hy
  obtain rfl : y = ⟨p, dst, m⟩ := by simpa [Cluster.Send.packets] using hy
  exact h

/-! ### The record -/

/-- The application has been called. -/
theorem ReplicaOk.call (h : ReplicaOk g i s) (app : σ) (us : List Upcall) :
    ReplicaOk g i { s with app := app, upcalls := s.upcalls ++ us } where
  view := h.view
  record := h.record
  prepared ha := by
    obtain ⟨t, ht, hop, u, hu, hans⟩ := h.prepared ha
    exact ⟨t, ht, hop, u, List.mem_append_left _ hu, hans⟩
  finalized := h.finalized

/-- What an entry that is added or replaced leaves of the record. -/
theorem record_setEntry {o o' : OpId} {e e' : RecordEntry} {rec : Record}
    (h : Function.update rec o (some e) o' = some e') : o' = o ∧ e = e' ∨ o' ≠ o ∧ rec o' = some e' := by
  by_cases hne : o' = o
  · subst hne
    exact Or.inl ⟨rfl, by simpa using h⟩
  · rw [Function.update_of_ne hne] at h
    exact Or.inr ⟨hne, h⟩

/-- An entry is added or replaced; `e` is finalized where the ghost says so. -/
theorem ReplicaOk.setEntry (h : ReplicaOk g i s) (hg : g.Advances (.replica i) g') {o : OpId}
    {e : RecordEntry} (he : EntryOk g' o e) (hprep : ∀ {o}, g'.prepared o i → g.prepared o i)
    (hfin : g'.finalized o i ↔ e.state = .finalized)
    (hother : ∀ {o'}, o' ≠ o → g'.finalized o' i → g.finalized o' i) :
    ReplicaOk g' i { s with record := Function.update s.record o (some e) } where
  view := h.view
  record {o' e'} h' := by
    rcases record_setEntry h' with ⟨rfl, rfl⟩ | ⟨_, h'⟩
    · exact he
    · exact (h.record h').mono hg
  prepared ha := by
    obtain ⟨t, ht, hrest⟩ := h.prepared (hprep ha)
    exact ⟨t, hg.request ht, hrest⟩
  finalized {o'} := by
    by_cases hne : o' = o
    · subst hne
      simpa using hfin
    · simp only [Function.update_of_ne hne]
      exact Iff.trans ⟨hother hne, hg.finalized⟩ h.finalized

/-- A new entry. -/
theorem ReplicaOk.addEntry (h : ReplicaOk g i s) {o : OpId} {e : RecordEntry} (ho : s.record o = none)
    (he : EntryOk g o e) (hst : e.state = .tentative) :
    ReplicaOk g i { s with record := Function.update s.record o (some e) } := by
  refine h.setEntry (.refl _ g) he (fun ha => ha) ?_ fun _ hf => hf
  rw [h.finalized, ho, hst]
  simp

/-- An entry is finalized. -/
theorem ReplicaOk.finalize (h : ReplicaOk g i s) {o : OpId} {e : RecordEntry} (he : EntryOk g o e)
    (hst : e.state = .finalized) :
    ReplicaOk (g.finalize o i) i { s with record := Function.update s.record o (some e) } := by
  refine h.setEntry History.advances_finalize (he.mono History.advances_finalize) (fun ha => ha)
    ⟨fun _ => hst, fun _ => Or.inr ⟨rfl, rfl⟩⟩ fun hne hf => ?_
  rcases hf with hf | ⟨rfl, _⟩
  · exact hf
  · exact (hne rfl).elim

/-- The replica has executed a PREPARE and was not blocked. -/
theorem ReplicaOk.prepare (h : ReplicaOk g i s) {o : OpId} {t : Txn} (ht : g.request o = some t)
    (hop : t.op = .prepare) (hu : ∃ u ∈ s.upcalls, u.Prepares t) : ReplicaOk (g.prepare o i) i s where
  view := h.view
  record he := (h.record he).mono History.advances_prepare
  prepared {o'} ha := by
    rcases ha with ha | ⟨rfl, _⟩
    · exact h.prepared ha
    · exact ⟨t, ht, hop, hu⟩
  finalized := h.finalized

/-- A result that says OK is that of a PREPARE that was not blocked. -/
theorem unblocked_of_prepareResult {result : String} {ret : TxnRet}
    (h : S.statusOf (prepareResult (S.serverEnv i) result ret) = .ok) : ret.blocked = false := by
  have hst : S.statusOf (prepareResult (S.serverEnv i) result ret) =
      if ret.blocked then .retry else if ret.commit then .ok else .retry :=
    congrArg ReplyMessage.status (S.wire.reply.parse_serialize _)
  rw [hst] at h
  by_contra hb
  rw [Bool.not_eq_false] at hb
  simp [hb] at h

/-! ### The handlers -/

/-- A call of the application that keeps `J` when it returns. -/
theorem replicaUpcall_spec (hs : ReplicaOk g i s) {txn : String} {arg : TxnArg}
    (hcall : Sat ((S.app i).invokeTransaction txn arg) s.app (fun _ s' _ => J s') fun _ _ => True) :
    (shardGhost S W U J (.replica i)).Spec g (replicaUpcall (S.serverEnv i) txn arg) s fun x g' t =>
      g = g' ∧ ∃ app, J app ∧ t = { s with app := app, upcalls := s.upcalls ++ [⟨txn, arg, x.1, x.2⟩] } := by
  rw [replicaUpcall, Ghost.spec_get_bind]
  rcases hcall.cases with ⟨⟨result, ret⟩, app, o, hm, happ⟩ | ⟨app, o, hm, _⟩
  · simp only [Shard.serverEnv, hm, Ghost.spec_modify_bind, Ghost.spec_pure]
    exact Ghost.Ends.same ⟨rfl, app, happ, rfl⟩
  · simp only [Shard.serverEnv, hm, Ghost.spec_modify_bind, Ghost.spec_abort]
    refine Ghost.Ends.same ?_
    have := hs.call app []
    rwa [List.append_nil] at this

/-- `HandleProposeInconsistent` keeps the invariant. -/
theorem handleProposeInconsistent_spec (hs : ReplicaOk g i s) (happ : J s.app) {req : Request}
    {t : Txn} (ht : g.request (opidOf req) = some t) (hreq : req.op = S.wire.txn.serialize t)
    (hop : t.op ≠ .prepare) :
    (shardGhost S W U J (.replica i)).Spec g
      (handleProposeInconsistent (S.serverEnv i) (.client req.clientid) req) s fun _ g' t =>
        ReplicaOk g' i t ∧ J t.app := by
  rw [handleProposeInconsistent, Ghost.spec_get_bind]
  cases hrec : s.record (opidOf req) with
  | some entry => exact Ghost.spec_emit.mpr (.sends ⟨hs, happ⟩ (sent_one rfl))
  | none =>
    have he : EntryOk g (opidOf req)
        { view := s.view, state := .tentative, request := req, result := "" } :=
      { view := hs.view, request := ⟨t, ht, hreq, fun _ => rfl, fun hp => (hop hp).elim⟩ }
    refine Ghost.Spec.bind (J := fun _ g' t => ReplicaOk g' i t ∧ J t.app) ?_
      fun _ g' t _ ht => Ghost.spec_emit.mpr (.sends ht (sent_one rfl))
    simp only [add, Ghost.spec_get_bind, Ghost.spec_assert_bind, Ghost.spec_modify]
    exact ⟨fun _ => .same ⟨hs.addEntry hrec he rfl, happ⟩, fun hno => (hno hrec).elim⟩

/-- `HandleFinalizeInconsistent` keeps the invariant. -/
theorem handleFinalizeInconsistent_spec (hJ : S.KeptBy J) (hs : ReplicaOk g i s) (happ : J s.app)
    {o : OpId} {t : Txn} (ht : g.request o = some t) (hop : t.op ≠ .prepare) :
    (shardGhost S W U J (.replica i)).Spec g
      (handleFinalizeInconsistent (S.serverEnv i) (.client o.1) o) s fun _ g' t =>
        ReplicaOk g' i t ∧ J t.app := by
  rw [handleFinalizeInconsistent, Ghost.spec_get_bind, Ghost.spec_whenSome]
  refine ⟨fun entry hentry => ?_, fun _ => .same ⟨hs, happ⟩⟩
  obtain ⟨t', ht', hreq, hempty, _⟩ := (hs.record hentry).request
  obtain rfl : t = t' := Option.some.inj (ht.symm.trans ht')
  have hfin : EntryOk g o { entry with state := .finalized } :=
    { view := (hs.record hentry).view
      request := ⟨t, ht, hreq, hempty, fun hp => (hop hp).elim⟩ }
  have hs' := hs.finalize hfin rfl
  have hparse : (S.serverEnv i).wire.txn.parse entry.request.op = t := by
    rw [hreq]
    exact S.wire.txn.parse_serialize t
  rw [Ghost.spec_when]
  refine ⟨fun _ => Ghost.Spec.advance (History.advances_finalize (o := o)) ?_,
    fun _ => .same ⟨hs, happ⟩⟩
  simp only [Ghost.spec_modify_bind, hparse, Ghost.spec_assert_bind]
  refine ⟨fun hcomm => ?_, fun _ => .same hs'⟩
  refine Ghost.Spec.bind (replicaUpcall_spec hs' (hJ.finish i t s.app (g.sends ht) hcomm happ)) ?_
  rintro ⟨result, ret⟩ _ t' _ ⟨rfl, app, happ', rfl⟩
  have hdone := hs'.call app [⟨t.txn, inconsistentArg t, result, ret⟩]
  simp only [Ghost.spec_assert_bind, Ghost.spec_emit]
  refine ⟨fun _ => ⟨fun _ => ⟨fun _ => ?_, fun _ => .same hdone⟩, fun _ => .same hdone⟩,
    fun _ => .same hdone⟩
  exact .sends ⟨hdone, happ'⟩ (sent_one ⟨rfl, t, ht, fun hp => (hop hp).elim⟩)

/-- The replica is asked again for what it was blocked on, and has not been told a result. -/
def Server.asksBlocked (s : Server σ) (wire : Wire) (req : Request) : Bool :=
  (s.record (opidOf req)).any fun entry => entry.state = .tentative &&
    !s.upcalls.any fun u => u.Prepares (wire.txn.parse req.op)

/-- The end of `HandleProposeConsensus`: the operation is entered, and the result of its execution sent. -/
theorem addAndReply_spec (hi : i < S.config.n) {req : Request} {r : String}
    (hrec : s.record (opidOf req) = none) (happ : J s.app)
    (hs : ReplicaOk g i { s with
      record := Function.update s.record (opidOf req)
        (some { view := s.view, state := .tentative, request := req }) })
    (hr : g.Reports (opidOf req) i r) :
    (shardGhost S W U J (.replica i)).Spec g (do
      addWithResult req r
      emit ⟨[.client req.clientid], .consensusReply s.view i (opidOf req) r⟩) s fun _ g' t =>
        ReplicaOk g' i t ∧ J t.app := by
  refine Ghost.Spec.bind (J := fun _ g' t => g = g' ∧ ReplicaOk g i t ∧ J t.app) ?_ ?_
  · simp only [addWithResult, add, Ghost.spec_get_bind, Ghost.spec_assert_bind, Ghost.spec_modify]
    exact ⟨fun _ => .same ⟨rfl, hs, happ⟩, fun hno => (hno hrec).elim⟩
  · rintro _ _ t' _ ⟨rfl, ht'⟩
    exact Ghost.spec_emit.mpr (.sends ht' (sent_one ⟨rfl, hs.view, hi, hr⟩))

/-- `HandleProposeConsensus` keeps the invariant, if it does not answer what was blocked from the record. -/
theorem handleProposeConsensus_spec (hJ : S.KeptBy J) (hi : i < S.config.n) (hs : ReplicaOk g i s)
    (happ : J s.app) {req : Request} {t : Txn} (ht : g.request (opidOf req) = some t)
    (hreq : req.op = S.wire.txn.serialize t) (hop : t.op = .prepare)
    (hW : W → s.asksBlocked S.wire req = false) :
    (shardGhost S W U J (.replica i)).Spec g
      (handleProposeConsensus (S.serverEnv i) (.client req.clientid) req) s fun _ g' t =>
        ReplicaOk g' i t ∧ J t.app := by
  have hparse : S.wire.txn.parse req.op = t := by
    rw [hreq]
    exact S.wire.txn.parse_serialize t
  have hparse' : (S.serverEnv i).wire.txn.parse req.op = t := hparse
  rw [handleProposeConsensus, Ghost.spec_get_bind]
  cases hrec : s.record (opidOf req) with
  | some entry =>
    have hview := (hs.record hrec).view
    obtain ⟨t', ht', _, _, hprep⟩ := (hs.record hrec).request
    obtain rfl : t = t' := Option.some.inj (ht.symm.trans ht')
    by_cases hu : ∃ u ∈ s.upcalls, u.Prepares t
    · refine Ghost.Spec.advance History.advances_prepare (Ghost.spec_emit.mpr
        (.sends ⟨hs.prepare ht hop hu, happ⟩ (sent_one ⟨rfl, hview, hi, fun _ _ => ?_⟩)))
      exact Or.inl (Or.inr ⟨rfl, rfl⟩)
    · refine Ghost.spec_emit.mpr (.sends ⟨hs, happ⟩ (sent_one ⟨rfl, hview, hi, fun hw _ => ?_⟩))
      -- the entry is finalized, with what has been decided on
      cases hst : entry.state with
      | finalized => exact Or.inr (hprep hop hst)
      | tentative =>
        have hno := hW hw
        rw [Server.asksBlocked, hrec, hparse] at hno
        refine (hu ?_).elim
        simpa [hst] using hno
  | none =>
    simp only [hparse', Ghost.spec_assert_bind]
    refine ⟨fun _ => ?_, fun hno => (hno hop).elim⟩
    refine Ghost.Spec.bind (replicaUpcall_spec hs (hJ.prepare i t s.app (g.sends ht) hop happ)) ?_
    rintro ⟨result, ret⟩ _ s' _ ⟨rfl, app, happ', rfl⟩
    have hs' := (hs.call app [⟨t.txn, { txnid := t.txnid, type := .prepare }, result, ret⟩]).addEntry
      (e := { view := s.view, state := .tentative, request := req }) hrec
      { view := hs.view
        request := ⟨t, ht, hreq, fun hno => (hno hop).elim, fun _ h => by cases h⟩ } rfl
    cases hb : ret.blocked with
    | false =>
      refine Ghost.Spec.advance History.advances_prepare
        (addAndReply_spec hi hrec happ' (hs'.prepare ht hop ?_) fun _ _ => ?_)
      · exact ⟨_, List.mem_append_right _ (List.mem_singleton_self _), rfl, rfl, hb⟩
      · exact Or.inl (Or.inr ⟨rfl, rfl⟩)
    | true =>
      refine addAndReply_spec hi hrec happ' hs' fun _ hok => ?_
      rw [unblocked_of_prepareResult hok] at hb
      cases hb

/-- `HandleFinalizeConsensus` keeps the invariant. -/
theorem handleFinalizeConsensus_spec (hs : ReplicaOk g i s) (happ : J s.app) {o : OpId} {r : String}
    (hr : g.decided o r) :
    (shardGhost S W U J (.replica i)).Spec g
      (handleFinalizeConsensus (S.serverEnv i) (.client o.1) o r) s fun _ g' t =>
        ReplicaOk g' i t ∧ J t.app := by
  rw [handleFinalizeConsensus, Ghost.spec_get_bind, Ghost.spec_whenSome]
  refine ⟨fun entry hentry => ?_, fun _ => .same ⟨hs, happ⟩⟩
  obtain ⟨t, ht, hreq, _, _⟩ := (hs.record hentry).request
  obtain ⟨t', ht', hop⟩ := g.prepares hr
  obtain rfl : t = t' := Option.some.inj (ht.symm.trans ht')
  have hfin : EntryOk g o { entry with state := .finalized, result := r } :=
    { view := (hs.record hentry).view
      request := ⟨t, ht, hreq, fun hno => (hno hop).elim, fun _ _ => hr⟩ }
  refine Ghost.Spec.advance (History.advances_finalize (o := o)) ?_
  rw [Ghost.spec_modify_bind, Ghost.spec_emit]
  exact .sends ⟨hs.finalize hfin rfl, happ⟩ (sent_one ⟨rfl, t, ht, fun _ => ⟨r, hr⟩⟩)

/-- A replica that receives a message keeps the invariant. -/
theorem serverReceive_spec (hJ : S.KeptBy J) (hi : i < S.config.n) (hs : ReplicaOk g i s)
    (happ : J s.app) {x : Cluster.Packet Node Message} (hx : GoodPacket g x)
    (hW : W → ∀ req, x.msg = .proposeConsensus req → s.asksBlocked S.wire req = false) :
    (shardGhost S W U J (.replica i)).Spec g (serverReceive (S.serverEnv i) x.src x.msg) s fun _ g' t =>
      ReplicaOk g' i t ∧ J t.app := by
  obtain ⟨src, dst, m⟩ := x
  cases m with
  | proposeInconsistent req =>
    obtain ⟨rfl, t, ht, hreq, hop⟩ := hx
    rw [serverReceive]
    exact handleProposeInconsistent_spec (J := J) hs happ ht hreq hop
  | finalizeInconsistent o =>
    obtain ⟨rfl, t, ht, hop⟩ := hx
    rw [serverReceive]
    exact handleFinalizeInconsistent_spec hJ hs happ ht hop
  | proposeConsensus req =>
    obtain ⟨rfl, t, ht, hreq, hop⟩ := hx
    rw [serverReceive]
    exact handleProposeConsensus_spec hJ hi hs happ ht hreq hop fun hw => hW hw req rfl
  | finalizeConsensus o r =>
    obtain ⟨rfl, hr⟩ := hx
    rw [serverReceive]
    exact handleFinalizeConsensus_spec (J := J) hs happ hr
  | inconsistentReply | consensusReply | confirm =>
    rw [serverReceive, Ghost.spec_abort]
    · exact .same hs
    all_goals simp

end Dsnet.Tapir
