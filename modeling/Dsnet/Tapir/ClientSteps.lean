import Dsnet.Tapir.Deciding

/-! The handlers of a client keep the invariant of the shard. -/

namespace Dsnet.Tapir
open Handler Transaction

variable {σ : Type} {S : Shard σ} {W U : Prop} {J : σ → Prop} {g g' : History S W} {c k : Nat}
  {s : IRClient} {req : PendingRequest}

/-- A message to all replicas. -/
theorem sent_group {m : Message} (h : ∀ i, GoodPacket g ⟨.client c, .replica i, m⟩) :
    (shardGhost S W U J (.client c)).sent g ((S.clientEnv c).toGroup m) := by
  intro y hy
  simp only [Cluster.Send.packets, ClientEnv.toGroup, List.map_map, List.mem_map] at hy
  obtain ⟨i, _, rfl⟩ := hy
  exact h i

/-! ### Callbacks -/

/-- `PrepareCallback` tells the promise what has been decided. -/
theorem prepareCallback_spec (h : ClientOk U g c s) (hno : ∀ k req, ¬ s.Waits k req) {r : String}
    (hr : g.decided (c, k) r) (hreq : ∀ w, s.waiting = some w →
      ∃ t, g.request (c, k) = some t ∧ t.op = .prepare ∧ t.txnid = w.txnid) :
    (shardGhost S W U J (.client c)).Spec g (prepareCallback (S.clientEnv c) k r) s fun _ g' t =>
      ClientOk U g' c t := by
  have h' := h.continue hr
  rw [prepareCallback, Ghost.spec_modify_bind, Ghost.spec_get_bind, Ghost.spec_whenSome]
  refine ⟨fun w hw => ?_, fun _ => .same h'⟩
  obtain ⟨t, ht, hop, hid⟩ := hreq w hw
  exact Ghost.spec_modify.mpr (.same
    ((h'.deliver fun hok => ⟨k, t, r, ht, hop, hid, hr, hok⟩).promises hno none _ _))

/-! ### Inconsistent operations -/

/-- A COMMIT or ABORT stays one. -/
theorem PendingOk.inconsistent (h : PendingOk U g c k req) {q : QuorumSet (Nat × Nat) Unit}
    (hkind : req.kind = .inr q) (q' : QuorumSet (Nat × Nat) Unit) {timer : Option TimerAction}
    (ht : timer ≠ some .resendRequestAndConfirmation) (ci : Bool) :
    PendingOk U g c k { req with kind := .inr q', timer := timer, continuationInvoked := ci } where
  id := h.id
  request := by
    obtain ⟨t, ht, hreq, hop⟩ := h.request
    refine ⟨t, ht, hreq, hop.trans ?_⟩
    simp [hkind]
  timer := ⟨fun _ => rfl, fun h => (ht h).elim⟩
  consensus h := by cases h

/-- `SendInconsistent`. -/
theorem sendInconsistent_spec (h : ClientOk U g c s) (hk : s.pendingReqs k = some req)
    (hl : req.kind.isLeft = false) :
    (shardGhost S W U J (.client c)).Spec g (sendInconsistent (S.clientEnv c) req) s fun _ g' t =>
      ClientOk U g' c t := by
  obtain ⟨hle, hp⟩ := h.pending hk
  obtain ⟨t, ht, hreq, hop⟩ := hp.request
  have hop : t.op ≠ .prepare := fun hp => by simp [hl] at hop; exact hop hp
  obtain ⟨q, hq⟩ : ∃ q, req.kind = .inr q := by
    cases hkind : req.kind with
    | inl => simp [hkind] at hl
    | inr q => exact ⟨q, rfl⟩
  have hp' : PendingOk U g c k { req with timer := some .resendInconsistent } := by
    have hne : some TimerAction.resendInconsistent ≠ some .resendRequestAndConfirmation := by simp
    have := hp.inconsistent hq q hne req.continuationInvoked
    rwa [← hq] at this
  obtain rfl := hp.id
  rw [sendInconsistent]
  refine Ghost.Spec.emit_bind (sent_group fun _ => ⟨rfl, t, ht, hreq, hop⟩) ?_
  refine Ghost.spec_modify.mpr (.same (h.put (.refl g c _) (fun hU _ _ => h.one hU) hle ?_))
  rintro _ ⟨rfl⟩
  exact ⟨hp', fun hc => ⟨req, ⟨hk, hc⟩, rfl⟩⟩

/-- `HandleInconsistentReply`. -/
theorem handleInconsistentReply_spec (h : ClientOk U g c s) (v i : Nat) :
    (shardGhost S W U J (.client c)).Spec g (handleInconsistentReply (S.clientEnv c) v i (c, k)) s
      fun _ g' t => ClientOk U g' c t := by
  rw [handleInconsistentReply, Ghost.spec_get_bind, Ghost.spec_whenSome]
  refine ⟨fun req hk => ?_, fun _ => .same h⟩
  obtain ⟨hle, hp⟩ := h.pending hk
  cases hkind : req.kind with
  | inl part => exact Ghost.spec_abort.mpr (.same h.toClientSaid)
  | inr q =>
    have hput : ∀ q' : QuorumSet (Nat × Nat) Unit,
        ClientOk U g c (s.setReq k (some { req with kind := .inr q' })) := by
      intro q'
      refine h.put (.refl g c k) (fun hU _ _ => h.one hU) hle ?_
      rintro _ ⟨rfl⟩
      refine ⟨hp.inconsistent hkind q' (fun ht => ?_) _, fun hc => ⟨req, ⟨hk, hc⟩, by rw [hkind]; rfl⟩⟩
      have := hp.timer.2 ht
      simp [hkind] at this
    simp only [Ghost.spec_modify_bind, Ghost.spec_whenSome, Ghost.spec_when]
    refine ⟨fun _ _ => ⟨fun hopen => ?_, fun _ => .same (hput _)⟩, fun _ => .same (hput _)⟩
    obtain ⟨t, ht, _, hop⟩ := hp.request
    have hop : t.op ≠ .prepare := fun hp => by simp [hkind] at hop; exact hop hp
    refine Ghost.Spec.emit_bind (sent_group fun _ => ⟨rfl, t, ht, hop⟩) ?_
    have hw : s.Waits k req := ⟨hk, hopen⟩
    have hdone : ∀ q' : QuorumSet (Nat × Nat) Unit, ClientOk U g c (s.setReq k (some
        { req with kind := .inr q', timer := some .resendConfirmation, continuationInvoked := true })) := by
      intro q'
      refine h.put (.refl g c k) (fun hU _ _ => h.one hU) hle ?_
      rintro _ ⟨rfl⟩
      exact ⟨hp.inconsistent hkind q' (by simp) true, fun hc => by cases hc⟩
    refine Ghost.Spec.bind (J := fun _ g' t => g = g' ∧
      t = { s.setReq k (some { req with kind := .inr (q.add (v, k) i ()) }) with
            blockingPrepare := some true, waiting := none }) ?_ ?_
    · rw [commitAbortCallback, Ghost.spec_get_bind, Ghost.spec_assert_bind, Ghost.spec_modify]
      exact ⟨fun _ => .same ⟨rfl, rfl⟩, fun _ => .same (hput _).toClientSaid⟩
    · rintro _ _ t' _ ⟨rfl, rfl⟩
      rw [Ghost.spec_modify]
      refine .same ?_
      have := (hdone (q.add (v, k) i ())).promises
        (h.no_waits_setReq hw (by rintro _ ⟨rfl⟩; rfl)) none (some true) s.calls
      simpa [IRClient.setReq] using this

/-! ### Consensus operations -/

/-- The replies to a PREPARE, with a super quorum to wait for. -/
structure RepliesOk (g : History S W) (c k : Nat) (part : ConsensusPart) : Prop where
  required : part.consensusReplyQuorum.numRequired = (S.clientEnv c).superQuorum
  replies : ∀ {v i r}, (i, r) ∈ (part.consensusReplyQuorum.messages v).toList →
    i < S.config.n ∧ g.Reports (c, k) i r

/-- What a PREPARE asks for. -/
theorem PendingOk.asks (h : PendingOk U g c k req) (hl : req.kind.isLeft = true) :
    ∃ t, g.request (c, k) = some t ∧ t.op = .prepare := by
  obtain ⟨t, ht, _, hop⟩ := h.request
  exact ⟨t, ht, hop.mpr hl⟩

/-- The request is decided on, by one of the two paths. -/
theorem PendingOk.decide (h : PendingOk U g c k req) (hl : req.kind.isLeft = true)
    {timer : Option TimerAction} (ht : timer ≠ some .resendInconsistent) {part : ConsensusPart}
    (hpart : ConsensusOk U g' c k timer part) (hg : g.Settles g' c k) (ci : Bool) :
    PendingOk U g' c k { req with kind := .inl part, timer := timer, continuationInvoked := ci } where
  id := h.id
  request := by
    obtain ⟨t, ht, hreq, hop⟩ := h.request
    exact ⟨t, (hg.request _).trans ht, hreq, hop.trans (iff_of_true hl rfl)⟩
  timer := ⟨fun h => (ht h).elim, fun _ => rfl⟩
  consensus h := by
    cases h
    exact hpart

/-- The decision of the fast path: nothing else has been decided on, where that matters. -/
theorem consensusFastPath_spec (h : ClientOk U g c s) (hk : s.pendingReqs k = some req)
    (hl : req.kind.isLeft = true) {part : ConsensusPart} (hpart : RepliesOk g c k part) {r : String}
    (hmatch : matchingResult (S.clientEnv c) (part.consensusReplyQuorum.messages (0, k)) = some r)
    (hone : U → ∀ r', g.decided (c, k) r' → r' = r) :
    (shardGhost S W U J (.client c)).Spec g (consensusFastPath (S.clientEnv c) (c, k) req part r)
      (s.setReq k (some { req with kind := .inl part })) fun _ g' t => ClientOk U g' c t := by
  obtain ⟨hle, hp⟩ := h.pending hk
  obtain ⟨t, ht, hop⟩ := hp.asks hl
  have hok : W → S.statusOf r = .ok → S.OkQuorum (g.prepared (c, k)) := fun hW =>
    okQuorum_of_fast hW hpart.replies hmatch
  have hg := History.settles_decide ⟨t, ht, hop⟩ hok
  have hr := History.decided_decide ⟨t, ht, hop⟩ hok
  have hone' := History.one_decide ⟨t, ht, hop⟩ hok hone
  generalize g.decide (c, k) r ⟨t, ht, hop⟩ hok = g' at hg hr hone'
  have hpart' : ConsensusOk U g' c k (some .resendConfirmation) { part with decideResult := r } :=
    { required := hpart.required
      replies := fun hm => ⟨(hpart.replies hm).1, (hpart.replies hm).2.mono hg.advances⟩
      undecided := fun h => by cases h
      decided := fun _ => hr
      fast := fun _ _ _ => matchingResult_eq_some hmatch
      slow := fun _ h => by cases h }
  have hdone := h.put hg hone' hle (o := some { req with
    timer := some .resendConfirmation, kind := .inl { part with decideResult := r }
    continuationInvoked := true }) (by
      rintro _ ⟨rfl⟩
      exact ⟨hp.decide hl (by simp) hpart' hg true, fun hc => by cases hc⟩)
  refine Ghost.Spec.advance hg.advances ?_
  rw [consensusFastPath]
  refine Ghost.Spec.emit_bind (sent_group fun _ => ⟨rfl, hr⟩) ?_
  rw [Ghost.spec_modify_bind, IRClient.setReq_setReq, Ghost.spec_when]
  refine ⟨fun hopen => ?_, fun _ => .same hdone⟩
  refine prepareCallback_spec hdone (h.no_waits_setReq ⟨hk, hopen⟩ (by rintro _ ⟨rfl⟩; rfl)) hr ?_
  intro w hw
  obtain ⟨w', t', hw', ht', hop', hid⟩ := h.prepare ⟨hk, hopen⟩ hl
  obtain rfl : w' = w := Option.some.inj (hw'.symm.trans hw)
  exact ⟨t', (hg.request _).trans ht', hop', hid⟩

/-- The decision of the slow path. -/
theorem consensusSlowPath_spec (h : ClientOk U g c s) (hk : s.pendingReqs k = some req)
    (hl : req.kind.isLeft = true) {part : ConsensusPart} (hpart : RepliesOk g c k part)
    (hone : U → ∀ r', g.decided (c, k) r' → r' = prepareDecide (S.clientEnv c)
      (resultSet (part.consensusReplyQuorum.messages (0, k))))
    (hslow : U → (part.consensusReplyQuorum.messages (0, k)).size < (S.clientEnv c).superQuorum ∨
      matchingResult (S.clientEnv c) (part.consensusReplyQuorum.messages (0, k)) = none) :
    (shardGhost S W U J (.client c)).Spec g (consensusSlowPath (S.clientEnv c) k)
      (s.setReq k (some { req with kind := .inl part })) fun _ g' t => ClientOk U g' c t := by
  obtain ⟨hle, hp⟩ := h.pending hk
  obtain ⟨t, ht, hop⟩ := hp.asks hl
  generalize hr : prepareDecide (S.clientEnv c)
    (resultSet (part.consensusReplyQuorum.messages (0, k))) = r at hone
  have hok : W → S.statusOf r = .ok → S.OkQuorum (g.prepared (c, k)) := by
    intro hW hok
    rw [← hr] at hok
    exact okQuorum_of_slow hW hpart.replies hok
  have hg := History.settles_decide ⟨t, ht, hop⟩ hok
  have hdec := History.decided_decide ⟨t, ht, hop⟩ hok
  have hone' := History.one_decide ⟨t, ht, hop⟩ hok hone
  generalize g.decide (c, k) r ⟨t, ht, hop⟩ hok = g' at hg hdec hone'
  have hpart' : ConsensusOk U g' c k (some .resendRequestAndConfirmation)
      { part with decideResult := r } :=
    { required := hpart.required
      replies := fun hm => ⟨(hpart.replies hm).1, (hpart.replies hm).2.mono hg.advances⟩
      undecided := fun h => by cases h
      decided := fun _ => hdec
      fast := fun _ _ h => (h rfl).elim
      slow := fun hU _ => (hslow hU).imp_right fun hno => ⟨hno, hr⟩ }
  rw [consensusSlowPath, Ghost.spec_get_bind, Ghost.spec_ofOption_bind]
  refine ⟨fun req' hreq' => ?_, fun hno => by simp at hno⟩
  obtain rfl : { req with kind := .inl part } = req' := by simpa using hreq'
  have hview : (s.setReq k (some { req with kind := .inl part })).view = 0 := h.view
  simp only [hview, hr]
  refine Ghost.Spec.advance hg.advances
    (Ghost.Spec.emit_bind (sent_group fun _ => ⟨rfl, by rw [hp.id]; exact hdec⟩) ?_)
  rw [Ghost.spec_modify, IRClient.setReq_setReq]
  refine .same (h.put hg hone' hle ?_)
  rintro _ ⟨rfl⟩
  exact ⟨hp.decide hl (by simp) hpart' hg _, fun hc => ⟨req, ⟨hk, hc⟩, hl⟩⟩

/-! ### Replies to a PREPARE -/

/-- What a super quorum of the replies say is what the fast path decides on. -/
theorem Agreed.matching (hv : S.config.Valid) {msgs : StdMap Nat String} {d : String}
    (h : Agreed (S.clientEnv c) msgs d) (hlt : ∀ {i r}, (i, r) ∈ msgs.toList → i < S.config.n) :
    matchingResult (S.clientEnv c) msgs = some d := by
  have hn : S.config.n = 2 * S.config.f + 1 := hv
  have hq : (S.clientEnv c).superQuorum = S.config.f + 1 + (S.config.f + 1 + 1) / 2 := rfl
  have hkeys : ∀ {r i}, i ∈ ((msgs.toList.filter fun x => x.2 = r).map Prod.fst).toFinset →
      (i, r) ∈ msgs.toList := by
    intro r i hi
    obtain ⟨⟨i, r'⟩, hx, rfl⟩ := List.mem_map.mp (List.mem_toFinset.mp hi)
    obtain ⟨hmem, hr⟩ := List.mem_filter.mp hx
    obtain rfl : r' = r := by simpa using hr
    exact hmem
  have hcount := h
  rw [Agreed, ← StdMap.card_keys_filter] at hcount
  cases hm : matchingResult (S.clientEnv c) msgs with
  | none =>
    obtain ⟨i, hi⟩ : (((msgs.toList.filter fun x => x.2 = d).map Prod.fst).toFinset).Nonempty :=
      Finset.card_pos.mp (by omega)
    exact (matchingResult_ne_none ⟨i, hkeys hi⟩ h hm).elim
  | some r =>
    -- the replicas that report `r` and those that report `d` are more than all there are
    have hcount' := matchingResult_eq_some hm
    rw [Agreed, ← StdMap.card_keys_filter] at hcount'
    obtain ⟨i, hi, hi'⟩ := quorums_meet (fun i hi => hlt (hkeys (r := d) hi))
      (fun i hi => hlt (hkeys (r := r) hi)) (by omega)
    exact (StdMap.find?_of_mem (hkeys hi')).symm.trans (StdMap.find?_of_mem (hkeys hi))

/-- After a decision, a reply that has not been recorded is or keeps a super quorum complete, of which not
    enough say what has been decided. -/
def Redecides (E : ClientEnv) (part : ConsensusPart) (timer : Option TimerAction) (vs : Nat × Nat)
    (i : Nat) (r : String) : Prop :=
  timer ≠ some .consensusSlowPath ∧
    ((part.consensusReplyQuorum.add vs i r).checkForQuorum vs).isSome = true ∧
    (part.consensusReplyQuorum.messages vs).find? i ≠ some r ∧
    ¬ Agreed E ((part.consensusReplyQuorum.messages vs).insert i r) part.decideResult

instance (E : ClientEnv) (part : ConsensusPart) (timer : Option TimerAction) (vs : Nat × Nat) (i : Nat)
    (r : String) : Decidable (Redecides E part timer vs i r) := inferInstanceAs (Decidable (_ ∧ _ ∧ _ ∧ _))

/-- A quorum that is not reached. -/
theorem size_lt_of_checkForQuorum {ι μ : Type} {q : QuorumSet ι μ} {vs : ι}
    (h : q.checkForQuorum vs = none) : (q.messages vs).size < q.numRequired := by
  by_contra hle
  rw [QuorumSet.checkForQuorum, if_pos (not_lt.mp hle)] at h
  cases h

/-- Where a client decides only once, the replies that complete a super quorum are the first to do so, or
    they say what has been decided, or they are those that it was decided on. -/
theorem decided_cases {part : ConsensusPart} {timer : Option TimerAction}
    (hc : ConsensusOk U g c k timer part) {i : Nat} {r : String}
    (hno : ¬ Redecides (S.clientEnv c) part timer (0, k) i r) (hU : U) {msgs : StdMap Nat String}
    (hmsgs : (part.consensusReplyQuorum.messages (0, k)).insert i r = msgs)
    (hq : (part.consensusReplyQuorum.add (0, k) i r).checkForQuorum (0, k) = some msgs) :
    (∀ r', ¬ g.decided (c, k) r') ∨
    g.decided (c, k) part.decideResult ∧ Agreed (S.clientEnv c) msgs part.decideResult ∨
    g.decided (c, k) part.decideResult ∧ matchingResult (S.clientEnv c) msgs = none ∧
      prepareDecide (S.clientEnv c) (resultSet msgs) = part.decideResult := by
  by_cases h₁ : timer = some .consensusSlowPath
  · exact Or.inl (hc.undecided h₁).1
  by_cases hagree : Agreed (S.clientEnv c) msgs part.decideResult
  · exact Or.inr (Or.inl ⟨hc.decided h₁, hagree⟩)
  have hcopy : part.consensusReplyQuorum.messages (0, k) = msgs := by
    rw [← hmsgs]
    refine (StdMap.insert_of_find? ?_).symm
    by_contra hne
    exact hno ⟨h₁, by rw [hq]; rfl, hne, by rwa [hmsgs]⟩
  by_cases h₂ : timer = some .resendRequestAndConfirmation
  · have hsize := (QuorumSet.checkForQuorum_eq_some.mp hq).2
    rw [QuorumSet.numRequired_add, hc.required] at hsize
    rcases hc.slow hU h₂ with hlt | hslow
    · rw [hcopy] at hlt
      omega
    · rw [hcopy] at hslow
      exact Or.inr (Or.inr ⟨hc.decided h₁, hslow⟩)
  · have hfast := hc.fast hU h₁ h₂
    rw [hcopy] at hfast
    exact (hagree hfast).elim

/-- `HandleConsensusReply`. Once the fast path has decided, the replies that it has counted keep it so. -/
theorem handleConsensusReply_spec (h : ClientOk U g c s) (hv : U → S.config.Valid) {i : Nat}
    (hi : i < S.config.n) {r : String} (hr : g.Reports (c, k) i r)
    (hone : U → ∀ req part, s.pendingReqs k = some req → req.kind = .inl part →
      ¬ Redecides (S.clientEnv c) part req.timer (0, k) i r) :
    (shardGhost S W U J (.client c)).Spec g (handleConsensusReply (S.clientEnv c) 0 i (c, k) r) s
      fun _ g' t => ClientOk U g' c t := by
  rw [handleConsensusReply, Ghost.spec_get_bind, Ghost.spec_whenSome]
  refine ⟨fun req hk => ?_, fun _ => .same h⟩
  obtain ⟨hle, hp⟩ := h.pending hk
  cases hkind : req.kind with
  | inr q => exact Ghost.spec_abort.mpr (.same h.toClientSaid)
  | inl part =>
    have hl : req.kind.isLeft = true := by rw [hkind]; rfl
    have hc := hp.consensus hkind
    have hno := fun hU => hone hU req part hk hkind
    have hmsgs : (part.consensusReplyQuorum.add (0, k) i r).messages (0, k) =
        (part.consensusReplyQuorum.messages (0, k)).insert i r := QuorumSet.messages_add_self ..
    have hpart : RepliesOk g c k
        { part with consensusReplyQuorum := part.consensusReplyQuorum.add (0, k) i r } :=
      { required := hc.required
        replies := fun hm => by
          rcases QuorumSet.mem_messages_add hm with ⟨_, hm⟩ | hm
          · cases hm
            exact ⟨hi, hr⟩
          · exact hc.replies hm }
    simp only [Ghost.spec_modify_bind, Ghost.spec_whenSome]
    refine ⟨fun msgs hq => ?_, fun hq => ?_⟩
    · obtain ⟨rfl, hsize⟩ := QuorumSet.checkForQuorum_eq_some.mp hq
      have hcases := fun hU => decided_cases hc (hno hU) hU hmsgs.symm hq
      have hlt := fun {i r} hm => (hpart.replies (v := (0, k)) (i := i) (r := r) hm).1
      cases hm : matchingResult (S.clientEnv c)
          ((part.consensusReplyQuorum.add (0, k) i r).messages (0, k)) with
      | some d =>
        refine consensusFastPath_spec h hk hl hpart hm fun hU r' hr' => ?_
        rcases hcases hU with hnone | ⟨hdec, hagree⟩ | ⟨_, hnone, _⟩
        · exact (hnone r' hr').elim
        · rw [h.one hU hr' hdec]
          exact Option.some.inj ((hagree.matching (hv hU) hlt).symm.trans hm)
        · rw [hm] at hnone
          cases hnone
      | none =>
        refine consensusSlowPath_spec h hk hl hpart (fun hU r' hr' => ?_) fun _ => Or.inr hm
        rcases hcases hU with hnone | ⟨_, hagree⟩ | ⟨hdec, _, hsame⟩
        · exact (hnone r' hr').elim
        · rw [hagree.matching (hv hU) hlt] at hm
          cases hm
        · rw [h.one hU hr' hdec]
          exact hsame.symm
    · have hsize := size_lt_of_checkForQuorum hq
      rw [QuorumSet.numRequired_add, hc.required] at hsize
      refine .same (h.put (.refl g c k) (fun hU _ _ => h.one hU) hle ?_)
      rintro _ ⟨rfl⟩
      refine ⟨hp.decide hl (fun ht => ?_) ?_ (.refl g c k) _, fun hc => ⟨req, ⟨hk, hc⟩, hl⟩⟩
      · simp [hp.timer.1 ht] at hl
      · exact { required := hpart.required
                replies := hpart.replies
                undecided := fun ht => ⟨(hc.undecided ht).1, hsize⟩
                decided := hc.decided
                fast := fun hU h₁ h₂ => by
                  -- a super quorum of replies has been there before
                  have hold := (hc.fast hU h₁ h₂).trans List.countP_le_length
                  have hle := StdMap.size_le_insert
                    (part.consensusReplyQuorum.messages (0, k)) i r
                  rw [hmsgs] at hsize
                  exact (hsize.not_ge (hold.trans hle)).elim
                slow := fun _ _ => Or.inl hsize }

/-- `HandleConfirm`: only what has been decided on is confirmed. -/
theorem handleConfirm_spec (h : ClientOk U g c s) (v i : Nat) {t : Txn} (ht : g.request (c, k) = some t)
    (hdec : t.op = .prepare → ∃ r, g.decided (c, k) r) :
    (shardGhost S W U J (.client c)).Spec g (handleConfirm (S.clientEnv c) v i (c, k)) s
      fun _ g' t => ClientOk U g' c t := by
  rw [handleConfirm, Ghost.spec_get_bind, Ghost.spec_whenSome]
  refine ⟨fun req hk => ?_, fun _ => .same h⟩
  obtain ⟨hle, hp⟩ := h.pending hk
  simp only
  cases hq : (req.confirmQuorum.add (v, k) i ()).checkForQuorum (v, k) with
  | none =>
    refine Ghost.spec_modify.mpr (.same (h.put (.refl g c k) (fun hU _ _ => h.one hU) hle ?_))
    rintro _ ⟨rfl⟩
    exact ⟨{ id := hp.id, request := hp.request, timer := hp.timer, consensus := hp.consensus },
      fun hc => ⟨req, ⟨hk, hc⟩, rfl⟩⟩
  | some _ =>
    have hdone : ClientOk U g c (s.setReq k none) :=
      h.put (.refl g c k) (fun hU _ _ => h.one hU) hle fun _ hno => by cases hno
    rw [Ghost.spec_modify_bind, Ghost.spec_when]
    refine ⟨fun hopen => ?_, fun _ => .same hdone⟩
    cases hkind : req.kind with
    | inr _ => exact Ghost.spec_abort.mpr (.same hdone.toClientSaid)
    | inl part =>
      have hl : req.kind.isLeft = true := by rw [hkind]; rfl
      have hw : s.Waits k req := ⟨hk, hopen⟩
      obtain ⟨t', ht', hop⟩ := hp.asks hl
      obtain rfl : t = t' := Option.some.inj (ht.symm.trans ht')
      obtain ⟨r, hr⟩ := hdec hop
      have hnot : req.timer ≠ some .consensusSlowPath := fun hslow =>
        ((hp.consensus hkind).undecided hslow).1 r hr
      refine prepareCallback_spec hdone (h.no_waits_setReq hw fun _ hno => by cases hno)
        ((hp.consensus hkind).decided hnot) fun w hw' => ?_
      obtain ⟨w', t', hw'', hrest⟩ := h.prepare hw hl
      obtain rfl : w' = w := Option.some.inj (hw''.symm.trans hw')
      exact ⟨t', hrest⟩

/-! ### Timers -/

/-- `ResendConfirmation`. -/
theorem resendConfirmation_spec (h : ClientOk U g c s) (hk : s.pendingReqs k = some req)
    (ht : req.timer ≠ some .consensusSlowPath) :
    (shardGhost S W U J (.client c)).Spec g (resendConfirmation (S.clientEnv c) k) s
      fun _ g' t => ClientOk U g' c t := by
  rw [resendConfirmation, Ghost.spec_get_bind, Ghost.spec_whenSome]
  refine ⟨fun req' hk' => ?_, fun _ => .same h⟩
  obtain rfl : req = req' := Option.some.inj (hk.symm.trans hk')
  obtain ⟨hle, hp⟩ := h.pending hk
  obtain ⟨t, hreq, _, hop⟩ := hp.request
  cases hkind : req.kind with
  | inl part =>
    refine Ghost.spec_emit.mpr (.sends h (sent_group fun _ => ⟨rfl, ?_⟩))
    rw [hp.id]
    exact (hp.consensus hkind).decided ht
  | inr q =>
    refine Ghost.spec_emit.mpr (.sends h (sent_group fun _ => ⟨rfl, t, ?_, fun hpr => ?_⟩))
    · rw [hp.id]
      exact hreq
    · simp [hkind] at hop
      exact hop hpr

/-- A timer fires. -/
theorem fire_spec (h : ClientOk U g c s) (hk : s.pendingReqs k = some req) {a : TimerAction}
    (ha : req.timer = some a) :
    (shardGhost S W U J (.client c)).Spec g (fire (S.clientEnv c) k a) s
      fun _ g' t => ClientOk U g' c t := by
  obtain ⟨hle, hp⟩ := h.pending hk
  cases a with
  | resendInconsistent =>
    rw [fire, Ghost.spec_get_bind, Ghost.spec_ofOption_bind]
    refine ⟨fun req' hk' => ?_, fun _ => .same h.toClientSaid⟩
    obtain rfl : req = req' := Option.some.inj (hk.symm.trans hk')
    exact sendInconsistent_spec h hk (hp.timer.1 ha)
  | consensusSlowPath =>
    rw [fire]
    cases hkind : req.kind with
    | inr q =>
      rw [consensusSlowPath, Ghost.spec_get_bind, Ghost.spec_ofOption_bind]
      refine ⟨fun req' hk' => ?_, fun _ => .same h.toClientSaid⟩
      obtain rfl : req = req' := Option.some.inj (hk.symm.trans hk')
      rw [hkind]
      exact Ghost.spec_abort.mpr (.same h.toClientSaid)
    | inl part =>
      have hc := hp.consensus hkind
      have hund := hc.undecided ha
      have hsame : s.setReq k (some { req with kind := .inl part }) = s := by
        rw [← hkind]
        exact IRClient.setReq_self hk
      have := consensusSlowPath_spec (J := J) h hk (by rw [hkind]; rfl) ⟨hc.required, hc.replies⟩
        (fun _ r' hr' => (hund.1 r' hr').elim) fun _ => Or.inl hund.2
      rwa [hsame] at this
  | resendRequestAndConfirmation =>
    rw [fire, Ghost.spec_get_bind, Ghost.spec_ofOption_bind]
    refine ⟨fun req' hk' => ?_, fun _ => .same h.toClientSaid⟩
    obtain rfl : req = req' := Option.some.inj (hk.symm.trans hk')
    obtain ⟨t, ht, hreq, hop⟩ := hp.request
    refine Ghost.Spec.emit_bind (sent_group fun _ => ⟨rfl, t, ?_, hreq, hop.mpr (hp.timer.2 ha)⟩)
      (resendConfirmation_spec h hk (by simp [ha]))
    rw [opidOf, requestOf, hp.id]
    exact ht
  | resendConfirmation =>
    rw [fire]
    exact resendConfirmation_spec h hk (by simp [ha])

/-! ### Calls -/

/-- A new request, when no other waits. -/
theorem ClientOk.invoke (h : ClientOk U g c s) (hno : ∀ k req, ¬ s.Waits k req) {t : Txn}
    (ht : S.Sends t) (hp : ∀ ho, PendingOk U (g.ask (c, s.lastReqId + 1) t ht ho) c (s.lastReqId + 1) req)
    (hprep : req.kind.isLeft = true → ∃ w, s.waiting = some w ∧ t.op = .prepare ∧ t.txnid = w.txnid)
    (hcomm : req.kind.isLeft = false → s.waiting = none ∧ s.blockingPrepare = some false) :
    ClientOk U (g.ask (c, s.lastReqId + 1) t ht (h.fresh (Nat.lt_succ_self _))) c
      ({ s with lastReqId := s.lastReqId + 1 }.setReq (s.lastReqId + 1) (some req)) := by
  have hg := History.advances_ask ht (h.fresh (Nat.lt_succ_self _))
  have hwaits : ∀ {k' req'},
      ({ s with lastReqId := s.lastReqId + 1 }.setReq (s.lastReqId + 1) (some req)).Waits k' req' →
      k' = s.lastReqId + 1 ∧ req' = req := by
    rintro k' req' ⟨h', hc⟩
    by_cases hk' : k' = s.lastReqId + 1
    · subst hk'
      rw [IRClient.pendingReqs_setReq, Function.update_self] at h'
      exact ⟨rfl, (Option.some.inj h').symm⟩
    · rw [IRClient.pendingReqs_setReq, Function.update_of_ne hk'] at h'
      exact (hno _ _ ⟨h', hc⟩).elim
  refine { delivered := ?_, continued := h.continued, one := h.one, view := h.view, fresh := ?_
           pending := ?_, single := ?_, prepare := ?_, commitAbort := ?_ }
  · intro d hd hok
    obtain ⟨k', t', r, ht', hrest⟩ := h.delivered d hd hok
    exact ⟨k', t', r, hg.request ht', hrest⟩
  · intro k' hlt
    have hne : (c, k') ≠ (c, s.lastReqId + 1) := by
      rintro ⟨⟩
      exact lt_irrefl _ hlt
    rw [History.request_ask, Function.update_of_ne hne]
    exact h.fresh (Nat.lt_of_succ_lt hlt)
  · intro k' req' h'
    by_cases hk' : k' = s.lastReqId + 1
    · subst hk'
      rw [IRClient.pendingReqs_setReq, Function.update_self] at h'
      cases h'
      exact ⟨le_refl _, hp _⟩
    · rw [IRClient.pendingReqs_setReq, Function.update_of_ne hk'] at h'
      exact ⟨(h.pending h').1.trans (Nat.le_succ _), (h.pending h').2.mono hg fun hd => hd⟩
  · intro k₁ k₂ _ _ h₁ h₂
    rw [(hwaits h₁).1, (hwaits h₂).1]
  · intro k' req' h' hl
    obtain ⟨rfl, rfl⟩ := hwaits h'
    obtain ⟨w, hw, hop, hid⟩ := hprep hl
    exact ⟨w, t, hw, by simp, hop, hid⟩
  · intro k' req' h' hl
    obtain ⟨rfl, rfl⟩ := hwaits h'
    exact hcomm hl

/-- `Prepare`. -/
theorem prepare_spec (h : ClientOk U g c s) (hw : s.waiting = none)
    (hb : s.blockingPrepare ≠ some false) (txnid : Nat) :
    (shardGhost S W U J (.client c)).Spec g (prepare (S.clientEnv c) txnid (S.txn txnid)) s
      fun _ g' t => ClientOk U g' c t := by
  have hno := h.no_waits hw hb
  have h' := h.promises hno (some ⟨s.calls + 1, txnid⟩) none (s.calls + 1)
  have ht : S.Sends { txnid := txnid, op := .prepare, txn := S.txn txnid } :=
    ⟨fun _ => rfl, fun hne => (hne rfl).elim⟩
  rw [prepare, Ghost.spec_modify_bind, invokeConsensus, Ghost.spec_modify_bind, Ghost.spec_get_bind]
  simp only
  refine Ghost.Spec.advance (History.advances_ask ht (h.fresh (Nat.lt_succ_self _)))
    (Ghost.Spec.emit_bind (sent_group fun _ => ⟨rfl, _, by
      rw [History.request_ask]
      exact Function.update_self .., rfl, rfl⟩) ?_)
  have hund : ∀ r, ¬ g.decided (c, s.lastReqId + 1) r := by
    intro r hr
    obtain ⟨t, ht', _⟩ := g.prepares hr
    rw [h.fresh (Nat.lt_succ_self _)] at ht'
    cases ht'
  have hpos : 0 < (S.clientEnv c).superQuorum := Nat.lt_of_lt_of_le (Nat.succ_pos _)
    (quorumSize_le_superQuorum (S := S))
  refine Ghost.spec_modify.mpr (.same (h'.invoke (fun k req => hno k req) ht (fun ho => ?_)
    (fun _ => ⟨_, rfl, rfl, rfl⟩) fun hl => by cases hl))
  refine { id := rfl, request := ⟨_, by simp, rfl, by simp⟩, timer := by simp, consensus := ?_ }
  rintro _ ⟨⟩
  exact { required := rfl
          replies := fun hm => by cases hm
          undecided := fun _ => ⟨hund, hpos⟩
          decided := fun h => (h rfl).elim
          fast := fun _ h => (h rfl).elim
          slow := fun _ h => by cases h }

/-- `CommitAbort`. -/
theorem commitAbort_spec (h : ClientOk U g c s) (hw : s.waiting = none)
    (hb : s.blockingPrepare = none) (txnid : Nat) (commit : Bool) :
    (shardGhost S W U J (.client c)).Spec g (commitAbort (S.clientEnv c) txnid commit) s
      fun _ g' t => ClientOk U g' c t := by
  have hno := h.no_waits hw (by simp [hb])
  have h' := h.promises hno none (some false) s.calls
  rw [← hw] at h'
  have ht : S.Sends { txnid := txnid, op := if commit then .commit else .abort, txn := "" } :=
    ⟨fun hop => (by cases commit <;> cases hop), fun _ => rfl⟩
  have hop : (if commit then Operation.commit else Operation.abort) ≠ .prepare := by
    cases commit <;> simp
  rw [commitAbort, Ghost.spec_modify_bind, invokeInconsistent, Ghost.spec_modify_bind,
    Ghost.spec_get_bind]
  simp only [Ghost.spec_modify_bind]
  refine Ghost.Spec.advance (History.advances_ask ht (h.fresh (Nat.lt_succ_self _)))
    (sendInconsistent_spec (k := s.lastReqId + 1) (h'.invoke (fun k req => hno k req) ht (fun ho => ?_)
      (fun hl => by cases hl) fun _ => ⟨hw, rfl⟩) (by simp) rfl)
  refine { id := rfl, request := ⟨_, by simp, rfl, by simp [hop]⟩, timer := by simp, consensus := ?_ }
  rintro _ ⟨⟩

/-! ### Runs -/

/-- What a client does by itself keeps the invariant. -/
theorem act_spec (h : ClientOk U g c s) {a : Action} {m : ClientHandler Unit}
    (hm : S.act c s a = some m) :
    (shardGhost S W U J (.client c)).Spec g m s fun _ g' t => ClientOk U g' c t := by
  cases a with
  | prepare txnid =>
    rw [Shard.act] at hm
    split_ifs at hm with hp
    cases hm
    exact prepare_spec h hp.1 hp.2 txnid
  | commitAbort txnid commit =>
    rw [Shard.act] at hm
    split_ifs at hm with hp
    cases hm
    exact commitAbort_spec h hp.1 hp.2.1 txnid commit
  | timer reqId =>
    obtain ⟨req, hk, hm⟩ := Option.bind_eq_some_iff.mp hm
    obtain ⟨a, ha, rfl⟩ := Option.map_eq_some_iff.mp hm
    exact fire_spec h hk ha

/-- The event delivers a reply that makes a client decide again, on replies that do not agree with what it
    has decided before. -/
def decidesAgain (S : Shard σ) (s : Sys σ) : Event → Bool
  | .deliver i => s.net[i]?.any fun x =>
    match x.dst, x.msg with
    | .client c, .consensusReply view replicaIdx opid result =>
      (IRClient.pendingReqs (s.state (.client c)) opid.2).any fun req =>
        match req.kind with
        | .inl part => Redecides (S.clientEnv c) part req.timer (view, opid.2) replicaIdx result
        | .inr _ => false
    | _, _ => false
  | .act _ _ => false

/-- A client that receives a message keeps the invariant. -/
theorem clientReceive_spec (h : ClientOk U g c s) (hv : U → S.config.Valid)
    {x : Cluster.Packet Node Message} (hx : GoodPacket g x) (hdst : x.dst = .client c)
    (hone : U → ∀ v i k r req part, x.msg = .consensusReply v i (c, k) r →
      s.pendingReqs k = some req → req.kind = .inl part →
      ¬ Redecides (S.clientEnv c) part req.timer (v, k) i r) :
    (shardGhost S W U J (.client c)).Spec g (clientReceive (S.clientEnv c) x.msg) s fun _ g' t =>
      ClientOk U g' c t := by
  obtain ⟨src, dst, m⟩ := x
  obtain rfl : dst = .client c := hdst
  cases m with
  | inconsistentReply v i o =>
    obtain ⟨_, k⟩ := o
    cases hx
    rw [clientReceive]
    exact handleInconsistentReply_spec h v i
  | consensusReply v i o r =>
    obtain ⟨_, k⟩ := o
    obtain ⟨hd, rfl, hi, hr⟩ := hx
    cases hd
    rw [clientReceive]
    exact handleConsensusReply_spec h hv hi hr fun hU req part hk hkind =>
      hone hU 0 i k r req part rfl hk hkind
  | confirm v i o =>
    obtain ⟨_, k⟩ := o
    obtain ⟨hd, t, ht, hdec⟩ := hx
    cases hd
    rw [clientReceive]
    exact handleConfirm_spec h v i ht hdec
  | proposeInconsistent | finalizeInconsistent | proposeConsensus | finalizeConsensus =>
    rw [clientReceive, Ghost.spec_abort]
    · exact .same h.toClientSaid
    all_goals simp

/-- The event proposes a PREPARE again to a replica that was blocked on it. -/
def reproposes (S : Shard σ) (s : Sys σ) : Event → Bool
  | .deliver k => s.net[k]?.any fun x =>
    match x.dst, x.msg with
    | .replica i, .proposeConsensus req => Server.asksBlocked (s.state (.replica i)) S.wire req
    | _, _ => false
  | .act _ _ => false

/-- The invariant holds of every state that a run of the shard reaches. -/
theorem invariant_of_run {C : Sys σ → Event → Prop} (hJ : S.KeptBy J) (hv : U → S.config.Valid)
    (hone : U → ∀ s e, C s e → decidesAgain S s e = false)
    (hW : W → ∀ s e, C s e → reproposes S s e = false) {past : List (Sys σ)} {s : Sys σ}
    (hr : Run (system S) C past s) :
    ∃ g, (shardInvariant S W U J).Holds S.protocol.member g s ∧
      ∀ t ∈ past, ∃ g', (shardInvariant S W U J).Holds S.protocol.member g' t ∧
        (shardInvariant S W U J).Leads g' g := by
  refine Cluster.ClusterInvariant.of_run (holds_initial S W U hJ) ?_ hr
  intro g s e p m h hC hm hmem hrun
  have hst := h.running p hmem hrun
  rcases Cluster.Event.of_handler hm with ⟨i, x, rfl, hx, rfl, rfl⟩ | ⟨a, rfl, ha⟩
  · obtain ⟨src, dst, msg⟩ := x
    have hpk := h.packet _ (List.mem_of_getElem? hx)
    cases dst with
    | client c =>
      refine clientReceive_spec hst hv hpk rfl fun hU v j k r req part hmsg hk hkind hre => ?_
      obtain rfl : msg = _ := hmsg
      have := hone hU s _ hC
      simp [decidesAgain, hx, hk, hkind] at this
      exact this hre
    | replica j =>
      refine serverReceive_spec hJ (of_decide_eq_true hmem) hst.1 hst.2 hpk fun hw req hmsg => ?_
      obtain rfl : msg = _ := hmsg
      simpa [reproposes, hx] using hW hw s _ hC
  · cases p with
    | client c => exact act_spec hst ha
    | replica j => cases ha

end Dsnet.Tapir
