import Dsnet.Tapir.Answers

/-! The clients keep the invariant of the shard. What the fast path and the slow path decide on is OK only
    when a quorum of the replies are, and a request that is answered by its continuation is the one that
    its promise waits for. -/

namespace Dsnet.Tapir
open Handler Transaction

variable {σ : Type} {S : Shard σ} {W U : Prop} {J : σ → Prop} {g g' : History S W} {c k : Nat}
  {s : IRClient}

/-! ### The decision -/

@[simp] theorem mem_resultSet {msgs : StdMap Nat String} {r : String} :
    r ∈ (resultSet msgs).toList ↔ ∃ i, (i, r) ∈ msgs.toList := by
  rw [resultSet, StdSet.mem_foldl_insert]
  simp

/-- The results are counted once each. -/
theorem countP_resultSet (msgs : StdMap Nat String) (p : String → Bool) :
    (resultSet msgs).toList.countP p =
      ((msgs.toList.filter fun x => p x.2).map Prod.snd).toFinset.card := by
  have hset : ((resultSet msgs).toList.filter p).toFinset =
      ((msgs.toList.filter fun x => p x.2).map Prod.snd).toFinset := by
    ext r
    simp only [List.mem_toFinset, List.mem_filter, mem_resultSet, List.mem_map]
    constructor
    · rintro ⟨⟨i, hi⟩, hp⟩
      exact ⟨(i, r), ⟨hi, hp⟩, rfl⟩
    · rintro ⟨⟨i, _⟩, ⟨hi, hp⟩, rfl⟩
      exact ⟨⟨i, hi⟩, hp⟩
  rw [← hset, List.toFinset_card_of_nodup ((resultSet msgs).nodup.filter _),
    List.countP_eq_length_filter]

/-- Replies that differ are replies of different replicas. -/
theorem countP_resultSet_le (msgs : StdMap Nat String) (p : String → Bool) :
    (resultSet msgs).toList.countP p ≤ msgs.toList.countP fun x => p x.2 := by
  rw [countP_resultSet]
  refine (List.toFinset_card_le _).trans (le_of_eq ?_)
  rw [List.length_map, List.countP_eq_length_filter]

theorem statusOf_serialize {m : ReplyMessage} :
    S.statusOf ((S.clientEnv c).wire.reply.serialize m) = m.status := by
  rw [Shard.statusOf]
  exact congrArg _ (S.wire.reply.parse_serialize m)

/-- `PrepareDecide` says OK only with a quorum of results that do. -/
theorem okCount_of_decideLoop : ∀ {results : List String} {okCount : Nat} {reply : Option String},
    S.statusOf (decideLoop (S.clientEnv c) results okCount reply) = .ok →
    S.config.quorumSize ≤ okCount + results.countP fun r => S.statusOf r = .ok
  | [], okCount, reply, h => by
      by_cases hq : okCount ≥ (S.clientEnv c).config.quorumSize
      · exact hq
      · rw [decideLoop, if_neg hq, statusOf_serialize] at h
        cases h
  | r :: results, okCount, reply, h => by
      have hst : ((S.clientEnv c).wire.reply.parse r).status = S.statusOf r := rfl
      rw [decideLoop, hst] at h
      cases hr : S.statusOf r with
      | ok =>
        rw [hr] at h
        have := okCount_of_decideLoop h
        rw [List.countP_cons_of_pos (by simpa using hr)]
        omega
      | failed =>
        rw [hr] at h
        exact absurd (h.symm.trans hr) (by simp)
      | retry =>
        rw [hr] at h
        have := okCount_of_decideLoop h
        rw [List.countP_cons_of_neg (by simp [hr])]
        omega

/-- What a super quorum of the replies have in common. -/
theorem matchingResult_eq_some {msgs : StdMap Nat String} {r : String}
    (h : matchingResult (S.clientEnv c) msgs = some r) : Agreed (S.clientEnv c) msgs r := by
  simpa [Agreed] using List.find?_some h

/-- A super quorum that agrees is found. -/
theorem matchingResult_ne_none {msgs : StdMap Nat String} {r : String} (hr : ∃ i, (i, r) ∈ msgs.toList)
    (h : Agreed (S.clientEnv c) msgs r) : matchingResult (S.clientEnv c) msgs ≠ none := by
  intro hnone
  have := List.find?_eq_none.mp hnone r (mem_resultSet.mpr hr)
  simp [show _ ≤ _ from h] at this

/-- A quorum of replies that are OK: a quorum has prepared, or an OK was decided on before. -/
theorem okQuorum_of_count (hW : W) {o : OpId} {msgs : StdMap Nat String}
    (hmsgs : ∀ {i r}, (i, r) ∈ msgs.toList → i < S.config.n ∧ g.Reports o i r)
    (hcount : S.config.quorumSize ≤ msgs.toList.countP fun x => S.statusOf x.2 = .ok) :
    S.OkQuorum (g.prepared o) := by
  by_cases hdec : ∃ r, g.decided o r ∧ S.statusOf r = .ok
  · obtain ⟨r, hr, hok⟩ := hdec
    exact g.decided_ok hW hr hok
  · have hmem : ∀ i ∈ ((msgs.toList.filter fun x => S.statusOf x.2 = .ok).map Prod.fst).toFinset,
        i < S.config.n ∧ g.prepared o i := by
      intro i hi
      obtain ⟨⟨i, r⟩, hx, rfl⟩ := List.mem_map.mp (List.mem_toFinset.mp hi)
      obtain ⟨hx, hok⟩ := List.mem_filter.mp hx
      have hok : S.statusOf r = .ok := by simpa using hok
      obtain ⟨hlt, hrep⟩ := hmsgs hx
      rcases hrep hW hok with hrep | hrep
      · exact ⟨hlt, hrep⟩
      · exact (hdec ⟨r, hrep, hok⟩).elim
    refine ⟨_, ⟨?_, fun i hi => (hmem i hi).1⟩, fun i hi => (hmem i hi).2⟩
    rw [StdMap.card_keys_filter]
    exact hcount

theorem quorumSize_le_superQuorum : S.config.quorumSize ≤ (S.clientEnv c).superQuorum :=
  Nat.le_add_right ..

/-- The fast path decides on OK only if a quorum has prepared. -/
theorem okQuorum_of_fast (hW : W) {o : OpId} {msgs : StdMap Nat String} {r : String}
    (hmsgs : ∀ {i r}, (i, r) ∈ msgs.toList → i < S.config.n ∧ g.Reports o i r)
    (h : matchingResult (S.clientEnv c) msgs = some r) (hok : S.statusOf r = .ok) :
    S.OkQuorum (g.prepared o) := by
  refine okQuorum_of_count hW hmsgs ?_
  calc S.config.quorumSize ≤ (S.clientEnv c).superQuorum := quorumSize_le_superQuorum
    _ ≤ msgs.toList.countP fun x => x.2 = r := matchingResult_eq_some h
    _ ≤ msgs.toList.countP fun x => S.statusOf x.2 = .ok := by
        refine List.countP_mono_left fun x _ hx => ?_
        obtain rfl : x.2 = r := by simpa using hx
        simpa using hok

/-- And so does the slow path. -/
theorem okQuorum_of_slow (hW : W) {o : OpId} {msgs : StdMap Nat String}
    (hmsgs : ∀ {i r}, (i, r) ∈ msgs.toList → i < S.config.n ∧ g.Reports o i r)
    (hok : S.statusOf (prepareDecide (S.clientEnv c) (resultSet msgs)) = .ok) :
    S.OkQuorum (g.prepared o) := by
  refine okQuorum_of_count hW hmsgs ((okCount_of_decideLoop hok).trans ?_)
  rw [Nat.zero_add]
  exact countP_resultSet_le msgs _

/-! ### The state of the client -/

/-- The client may have decided request `k`, and has done nothing else. -/
structure History.Settles (g g' : History S W) (c k : Nat) : Prop where
  advances : g.Advances (.client c) g'
  request : ∀ o, g'.request o = g.request o
  decided : ∀ {k' r}, k' ≠ k → g'.decided (c, k') r → g.decided (c, k') r

theorem History.Settles.refl (g : History S W) (c k : Nat) : g.Settles g c k :=
  ⟨.refl _ g, fun _ => rfl, fun _ h => h⟩

theorem History.settles_decide {r : String}
    (hp : ∃ t, g.request (c, k) = some t ∧ t.op = .prepare)
    (hr : W → S.statusOf r = .ok → S.OkQuorum (g.prepared (c, k))) :
    g.Settles (g.decide (c, k) r hp hr) c k where
  advances := History.advances_decide hp hr
  request _ := rfl
  decided {k' r'} hk h := by
    rcases h with h | ⟨h, _⟩
    · exact h
    · exact (hk (congrArg Prod.snd h)).elim

theorem History.decided_decide {o : OpId} {r : String} (hp : ∃ t, g.request o = some t ∧ t.op = .prepare)
    (hr : W → S.statusOf r = .ok → S.OkQuorum (g.prepared o)) : (g.decide o r hp hr).decided o r :=
  Or.inr ⟨rfl, rfl⟩

/-- Only one decision, if that is the one that has been reached before. -/
theorem History.one_decide {o : OpId} {r : String} (hp : ∃ t, g.request o = some t ∧ t.op = .prepare)
    (hr : W → S.statusOf r = .ok → S.OkQuorum (g.prepared o))
    (hone : U → ∀ r', g.decided o r' → r' = r) (hU : U) {r₁ r₂ : String}
    (h₁ : (g.decide o r hp hr).decided o r₁) (h₂ : (g.decide o r hp hr).decided o r₂) : r₁ = r₂ := by
  have heq : ∀ {r'}, (g.decide o r hp hr).decided o r' → r' = r := fun h =>
    h.elim (hone hU _) fun h => h.2
  rw [heq h₁, heq h₂]

/-- Request `k` is changed or removed. -/
theorem ClientOk.put (h : ClientOk U g c s) (hg : g.Settles g' c k)
    (hone : U → ∀ {r r'}, g'.decided (c, k) r → g'.decided (c, k) r' → r = r') (hk : k ≤ s.lastReqId)
    {o : Option PendingRequest} (ho : ∀ req', o = some req' → PendingOk U g' c k req' ∧
      (req'.continuationInvoked = false → ∃ req, s.Waits k req ∧ req.kind.isLeft = req'.kind.isLeft)) :
    ClientOk U g' c (s.setReq k o) := by
  have hpend : ∀ {k' req'}, (s.setReq k o).pendingReqs k' = some req' →
      k' = k ∧ o = some req' ∨ k' ≠ k ∧ s.pendingReqs k' = some req' := by
    intro k' req' h'
    by_cases hk' : k' = k
    · subst hk'
      exact Or.inl ⟨rfl, by simpa using h'⟩
    · rw [IRClient.pendingReqs_setReq, Function.update_of_ne hk'] at h'
      exact Or.inr ⟨hk', h'⟩
  have hwaits : ∀ {k' req'}, (s.setReq k o).Waits k' req' →
      ∃ req, s.Waits k' req ∧ req.kind.isLeft = req'.kind.isLeft := by
    rintro k' req' ⟨h', hc⟩
    rcases hpend h' with ⟨rfl, heq⟩ | ⟨_, heq⟩
    · exact (ho _ heq).2 hc
    · exact ⟨req', ⟨heq, hc⟩, rfl⟩
  refine { delivered := ?_, continued := ?_, one := ?_, view := h.view, fresh := ?_, pending := ?_
           single := ?_, prepare := ?_, commitAbort := ?_ }
  · intro d hd hok
    obtain ⟨k', t, r, ht, hop, hid, hdec, hr⟩ := h.delivered d hd hok
    exact ⟨k', t, r, hg.advances.request ht, hop, hid, hg.advances.decided hdec, hr⟩
  · exact fun x hx => hg.advances.decided (h.continued x hx)
  · intro hU k' r r' hr hr'
    by_cases hk' : k' = k
    · subst hk'
      exact hone hU hr hr'
    · exact h.one hU (hg.decided hk' hr) (hg.decided hk' hr')
  · exact fun {k'} hlt => (hg.request _).trans (h.fresh hlt)
  · intro k' req' h'
    rcases hpend h' with ⟨rfl, heq⟩ | ⟨hne, heq⟩
    · exact ⟨hk, (ho _ heq).1⟩
    · exact ⟨(h.pending heq).1, (h.pending heq).2.mono hg.advances (hg.decided hne)⟩
  · intro k₁ k₂ req₁ req₂ h₁ h₂
    obtain ⟨_, h₁, _⟩ := hwaits h₁
    obtain ⟨_, h₂, _⟩ := hwaits h₂
    exact h.single h₁ h₂
  · intro k' req' h' hl
    obtain ⟨req, hw, hkind⟩ := hwaits h'
    obtain ⟨w, t, hw, ht, hrest⟩ := h.prepare hw (hkind.trans hl)
    exact ⟨w, t, hw, hg.advances.request ht, hrest⟩
  · intro k' req' h' hl
    obtain ⟨req, hw, hkind⟩ := hwaits h'
    exact h.commitAbort hw (hkind.trans hl)

/-- While no request waits, the promises can be anything. -/
theorem ClientOk.promises (h : ClientOk U g c s) (hno : ∀ k req, ¬ s.Waits k req)
    (w : Option Promise) (b : Option Bool) (n : Nat) :
    ClientOk U g c { s with waiting := w, blockingPrepare := b, calls := n } where
  delivered := h.delivered
  continued := h.continued
  one := h.one
  view := h.view
  fresh := h.fresh
  pending := h.pending
  single := h.single
  prepare hw := (hno _ _ hw).elim
  commitAbort hw := (hno _ _ hw).elim

/-- The continuation of a PREPARE has been invoked. -/
theorem ClientOk.continue (h : ClientOk U g c s) {r : String} (hr : g.decided (c, k) r) :
    ClientOk U g c { s with continued := s.continued ++ [(k, r)] } where
  delivered := h.delivered
  continued x hx := by
    rcases List.mem_append.mp hx with hx | hx
    · exact h.continued x hx
    · obtain rfl := List.mem_singleton.mp hx
      exact hr
  one := h.one
  view := h.view
  fresh := h.fresh
  pending := h.pending
  single := h.single
  prepare := h.prepare
  commitAbort := h.commitAbort

/-- The promise has been replied to. -/
theorem ClientOk.deliver (h : ClientOk U g c s) {d : Promise × Status × String}
    (hd : d.2.1 = .ok → ∃ k t r, g.request (c, k) = some t ∧ t.op = .prepare ∧ t.txnid = d.1.txnid ∧
      g.decided (c, k) r ∧ S.statusOf r = .ok) :
    ClientOk U g c { s with delivered := s.delivered ++ [d] } where
  delivered d' hd' := by
    rcases List.mem_append.mp hd' with hd' | hd'
    · exact h.delivered d' hd'
    · obtain rfl := List.mem_singleton.mp hd'
      exact hd
  continued := h.continued
  one := h.one
  view := h.view
  fresh := h.fresh
  pending := h.pending
  single := h.single
  prepare := h.prepare
  commitAbort := h.commitAbort

/-- Nothing waits when no promise does. -/
theorem ClientOk.no_waits (h : ClientOk U g c s) (hw : s.waiting = none)
    (hb : s.blockingPrepare ≠ some false) (k : Nat) (req : PendingRequest) : ¬ s.Waits k req := by
  intro hk
  cases hl : req.kind.isLeft with
  | true =>
    obtain ⟨w, _, hw', _⟩ := h.prepare hk hl
    rw [hw] at hw'
    cases hw'
  | false => exact hb (h.commitAbort hk hl).2

/-- Nothing waits once the request that did is changed. -/
theorem ClientOk.no_waits_setReq (h : ClientOk U g c s) {req : PendingRequest} (hk : s.Waits k req)
    {o : Option PendingRequest} (ho : ∀ req', o = some req' → req'.continuationInvoked = true)
    (k' : Nat) (req' : PendingRequest) : ¬ (s.setReq k o).Waits k' req' := by
  rintro ⟨h', hc⟩
  by_cases hk' : k' = k
  · subst hk'
    rw [IRClient.pendingReqs_setReq, Function.update_self] at h'
    rw [ho _ h'] at hc
    cases hc
  · rw [IRClient.pendingReqs_setReq, Function.update_of_ne hk'] at h'
    exact hk' (h.single ⟨h', hc⟩ hk)

end Dsnet.Tapir
