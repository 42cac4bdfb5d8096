import Dsnet.Spanner.LeaderSteps

/-! The handlers of the clients keep the invariant of the shards. -/

namespace Dsnet.Spanner
open Handler Transaction

variable {σ : Type} {S : Shards σ} {g g' : History S} {c : Nat} {s t : Client} {req : PendingRequest}

/-- What client `c` does to the ghost. -/
abbrev clientGhost (S : Shards σ) (c : Nat) : Ghost (History S) Client Output :=
  (shardsInvariant S).ghost (.client c)

theorem ClientSaid.congr (h : ClientSaid g c s) (hinv : t.invocations = s.invocations) :
    ClientSaid g c t where
  invoked ha := hinv ▸ h.invoked ha
  asked := hinv ▸ h.asked

/-- `SendRequest`. -/
theorem sendRequest_spec (req : PendingRequest) (h : ClientOk g c s) (hreq : s.pendingRequest = some req) :
    (clientGhost S c).Spec g (sendRequest (S.clientEnv c)) s fun _ g' t => ClientOk g' c t := by
  obtain ⟨hid, hask, -⟩ := h.pending hreq
  rw [sendRequest, Ghost.spec_get_bind, Ghost.spec_ofOption_bind]
  refine ⟨fun req' hreq' => ?_, fun _ => .same h.toClientSaid⟩
  obtain rfl : req = req' := Option.some.inj (hreq.symm.trans hreq')
  refine Ghost.Spec.bind (Ghost.Spec.forEach (fun rest g' t => g = g' ∧ s = t ∧
    ∀ kv ∈ rest, kv ∈ req.requests.toList) ?_ ⟨rfl, rfl, fun _ hkv => hkv⟩) ?_
  · rintro ⟨q, txn⟩ rest _ _ ⟨rfl, rfl, hrest⟩
    obtain ⟨hq, hrest⟩ := List.forall_mem_cons.mp hrest
    rw [Ghost.spec_emit]
    refine .sends ⟨rfl, rfl, hrest⟩ (sent_of fun dst hd => ⟨rfl, fun q' i hdst => ?_⟩)
    obtain ⟨j, _, rfl⟩ := List.mem_map.mp hd
    obtain ⟨rfl, rfl⟩ := Node.replica.inj hdst
    exact ⟨req.ask, txn, hid ▸ hask, StdMap.find?_of_mem hq, rfl, rfl⟩
  · rintro _ _ _ _ ⟨rfl, rfl, -⟩
    rw [Ghost.spec_modify]
    exact .same ⟨h.toClientSaid.congr rfl, h.txnid, h.last, h.pending, h.idle, h.heard, h.one⟩

/-- The client asks for something under its next number. -/
theorem ClientOk.put (h : ClientOk g c s) (req : PendingRequest) {hc hf} (hnew : ∀ k, s.lastReqId < k → g.ask c k = none)
    {hd : ∀ {c' k' a}, g.ask c' k' = some a → a.txnid = req.ask.txnid → c' = c}
    (hlast : t.lastReqId = s.lastReqId + 1) (hreq : t.pendingRequest = some req)
    (hid : req.clientReqId = t.lastReqId) (hinv : ∀ x, x ∈ t.invocations ↔
      x ∈ s.invocations ∨ x = (req.txnid, req.requests))
    (htxnid : s.txnid ≤ t.txnid) (htxnid' : req.txnid ≤ t.txnid)
    (hheard : ∀ {k q r m}, t.replySet.Has k q r m → g.result q c k = some m.type)
    (hrequired : t.replySet.required t.lastReqId = some req.requests.size)
    (hone : t.replySet.replicaRequired = 1) :
    ClientOk (g.put c s.lastReqId req.ask hc hnew hf hd) c t where
  invoked {k a} ha := by
    rw [hinv]
    by_cases hk : k = s.lastReqId + 1
    · subst hk
      rw [History.ask_put_self] at ha
      cases ha
      exact Or.inr rfl
    · rw [History.ask_put_of_ne hk] at ha
      exact Or.inl (h.invoked ha)
  asked x hx := by
    rcases (hinv x).mp hx with hx | rfl
    · obtain ⟨k, a, ha, hxa⟩ := h.asked x hx
      exact ⟨k, a, (History.advances_put req.ask hc hnew hf hd).ask ha, hxa⟩
    · exact ⟨_, _, History.ask_put_self, rfl, rfl⟩
  txnid x hx := by
    rcases (hinv x).mp hx with hx | rfl
    · exact (h.txnid x hx).trans htxnid
    · exact htxnid'
  last {k a} ha := by
    by_cases hk : k = s.lastReqId + 1
    · rw [hk, hlast]
    · rw [History.ask_put_of_ne hk] at ha
      have := h.last ha
      omega
  pending {req'} hreq' := by
    obtain rfl : req = req' := Option.some.inj (hreq.symm.trans hreq')
    exact ⟨hid, hlast ▸ History.ask_put_self, hrequired⟩
  idle hnone := by
    rw [hreq] at hnone
    cases hnone
  heard hh := hheard hh
  one := hone

/-- Nothing is asked under a number that has not been used. -/
theorem ClientOk.ask_eq_none (h : ClientOk g c s) : ∀ k, s.lastReqId < k → g.ask c k = none := by
  intro k hk
  by_contra hne
  obtain ⟨a, ha⟩ := Option.ne_none_iff_exists'.mp hne
  exact absurd (h.last ha) (by omega)

/-- `Invoke`. -/
theorem invoke_spec (h : ClientOk g c s) (hc : c ∈ S.clients) (requests : StdMap Nat String)
    (hd : ∀ {c' k' a}, g.ask c' k' = some a → a.txnid = s.txnid + 1 → c' = c) :
    (clientGhost S c).Spec g (invoke (S.clientEnv c) requests) s fun _ g' t => ClientOk g' c t := by
  rw [invoke, Ghost.spec_get_bind, Ghost.spec_assert_bind]
  refine ⟨fun hnone => ?_, fun _ => .same h.toClientSaid⟩
  have hnone' : s.pendingRequest = none := by simpa using hnone
  have hf : (s.lastReqId = 0 ∧ RequestType.prepare = .prepare) ∨ ∃ a, g.ask c s.lastReqId = some a ∧
      Follows a ⟨s.txnid + 1, .prepare, requests⟩ fun q => g.result q c s.lastReqId := by
    rcases h.idle hnone' with h0 | ⟨a, ha, ht, hall⟩
    · exact Or.inl ⟨h0, rfl⟩
    · refine Or.inr ⟨a, ha, hall, Or.inr ⟨ht, rfl, ?_⟩⟩
      have hle : a.txnid ≤ s.txnid := h.txnid _ (h.invoked ha)
      exact Nat.lt_succ_of_le hle
  let req : PendingRequest := ⟨s.txnid + 1, s.lastReqId + 1, requests, StdMap.empty, .prepare, 0⟩
  refine Ghost.Spec.advance (History.advances_put req.ask hc h.ask_eq_none hf hd) ?_
  simp only [Ghost.spec_modify_bind, Ghost.spec_get_bind]
  refine sendRequest_spec req ?_ rfl
  refine h.put req h.ask_eq_none rfl rfl rfl (fun x => by simp [req]) (Nat.le_succ _) (le_refl _) ?_
    MessageSet.required_setShardRequired h.one
  exact fun hh => h.heard (MessageSet.has_setShardRequired hh)

/-! ### Replies -/

/-- The replies of all shards to the last request. -/
structure AllReplied (g : History S) (c k : Nat) (a : Ask) (msgs : StdMap Nat (StdMap Nat ReplyMessage)) :
    Prop where
  shards : ∀ q ∈ a.shards, (g.result q c k).isSome = true
  types : ∀ kv ∈ msgs.toList, ∀ x ∈ kv.2.toList, g.result kv.1 c k = some x.2.type
  found : ∀ q ∈ a.shards, ∃ ms, (q, ms) ∈ msgs.toList

/-- A quorum has the replies of all shards. -/
theorem ClientOk.allReplied (h : ClientOk g c s) (hreq : s.pendingRequest = some req)
    {msgs : StdMap Nat (StdMap Nat ReplyMessage)} {k : Nat} (hk : k = s.lastReqId)
    (hq : s.replySet.checkForQuorum k = some msgs) :
    AllReplied g c s.lastReqId req.ask msgs := by
  subst hk
  obtain ⟨-, hask, hrequired⟩ := h.pending hreq
  obtain ⟨required, hmsgs, hsize, hone⟩ := MessageSet.checkForQuorum_eq_some hq
  obtain rfl : required = req.requests.size := by simpa [MessageSet.required, hmsgs] using hrequired
  have htypes : ∀ kv ∈ msgs.toList, ∀ x ∈ kv.2.toList, g.result kv.1 c s.lastReqId = some x.2.type :=
    fun kv hkv x hx => h.heard ⟨msgs, _, kv.2, hmsgs, hkv, hx⟩
  have hsome : ∀ kv ∈ msgs.toList, ∃ r, g.result kv.1 c s.lastReqId = some r := by
    intro kv hkv
    have hpos := hone kv hkv
    rw [h.one] at hpos
    obtain ⟨x, hx⟩ := List.exists_mem_of_length_pos hpos
    exact ⟨_, htypes kv hkv x hx⟩
  have hsub : msgs.keys ⊆ req.requests.keys := by
    intro q hq
    obtain ⟨ms, hms⟩ := StdMap.mem_keys.mp hq
    obtain ⟨r, hr⟩ := hsome _ hms
    obtain ⟨a, ha, hqa⟩ := g.asked hr
    obtain rfl : a = req.ask := Option.some.inj (ha.symm.trans hask)
    exact List.mem_toFinset.mpr hqa
  have hkeys := StdMap.keys_eq_of_subset hsub hsize
  have hfound : ∀ q ∈ req.ask.shards, ∃ ms, (q, ms) ∈ msgs.toList := by
    intro q hq
    have hq' : q ∈ req.requests.keys := List.mem_toFinset.mpr hq
    exact StdMap.mem_keys.mp (hkeys ▸ hq')
  refine ⟨fun q hq => ?_, htypes, hfound⟩
  obtain ⟨ms, hms⟩ := hfound q hq
  obtain ⟨r, hr⟩ := hsome _ hms
  rw [hr]
  rfl

/-- The loop of `HandleReply`: the fate is COMMIT when all replies are OK. -/
theorem tally_spec {k : Nat} : ∀ {kvs : List (Nat × StdMap Nat ReplyMessage)} {fate : Fate} {s : Client}
    {req : PendingRequest}, ClientSaid g c s → s.pendingRequest = some req →
    (∀ kv ∈ kvs, ∀ x ∈ kv.2.toList, g.result kv.1 c k = some x.2.type) →
    (clientGhost S c).Spec g (tally kvs fate) s fun fate' g' t => g = g' ∧
      (∃ replies, t = { s with pendingRequest := some { req with replies := replies } }) ∧
      (fate' = .commit → fate = .commit ∧ ∀ kv ∈ kvs, g.result kv.1 c k = some .ok)
  | [], fate, s, req, _, hreq, _ => by
      rw [tally, Ghost.spec_pure]
      exact .same ⟨rfl, ⟨req.replies, by rw [← hreq]⟩, fun h => ⟨h, by simp⟩⟩
  | kv :: kvs, fate, s, req, h, hreq, hres => by
      obtain ⟨hkv, hkvs⟩ := List.forall_mem_cons.mp hres
      rw [tally, Ghost.spec_assert_bind]
      refine ⟨fun _ => ?_, fun _ => .same h⟩
      rw [Ghost.spec_ofOption_bind]
      refine ⟨fun msg hmsg => ?_, fun _ => .same h⟩
      have hr := hkv _ (StdMap.mem_of_find? hmsg)
      rw [Ghost.spec_get_bind, Ghost.spec_ofOption_bind]
      refine ⟨fun req' hreq' => ?_, fun _ => .same h⟩
      obtain rfl : req = req' := Option.some.inj (hreq.symm.trans hreq')
      rw [Ghost.spec_ite]
      refine ⟨fun _ => ?_, fun hack => ?_⟩
      · rw [Ghost.spec_assert_bind]
        refine ⟨fun _ => ?_, fun _ => .same h⟩
        refine (tally_spec h hreq hkvs).mono ?_
        rintro fate' _ t _ ⟨rfl, ht, hc⟩
        refine ⟨rfl, ht, fun hf => ?_⟩
        cases (hc hf).1
      · rw [Ghost.spec_assert_bind, Ghost.spec_modify_bind, Ghost.spec_ite]
        refine ⟨fun _ => ⟨fun _ => ?_, fun hfail => ?_⟩, fun _ => .same h⟩
        · rw [Ghost.spec_pure]
          refine .same ⟨rfl, ⟨_, rfl⟩, fun hf => ?_⟩
          cases hf
        · have h' : ClientSaid g c { s with
              pendingRequest := some { req with replies := req.replies.insert kv.1 msg.reply } } := h.congr rfl
          refine (tally_spec h' rfl hkvs).mono ?_
          rintro fate' _ t _ ⟨rfl, ⟨replies, ht⟩, hc⟩
          refine ⟨rfl, ⟨replies, ht⟩, fun hf => ?_⟩
          obtain ⟨hfate, hall⟩ := hc hf
          split_ifs at hfate with hretry
          refine ⟨hfate, List.forall_mem_cons.mpr ⟨?_, hall⟩⟩
          rw [hr]
          cases htype : msg.type with
          | ok => rfl
          | fail => exact absurd htype hfail
          | retry => exact absurd htype hretry
          | ack => exact absurd htype hack

/-- The next request is about the same transaction. -/
@[simp] theorem nextRequest_txnid (req : PendingRequest) (fate : Fate) :
    (nextRequest req fate).txnid = req.txnid := by
  rw [nextRequest]
  split <;> rfl

@[simp] theorem nextRequest_requests (req : PendingRequest) (fate : Fate) :
    (nextRequest req fate).requests = req.requests := by
  rw [nextRequest]
  split <;> rfl

@[simp] theorem nextRequest_clientReqId (req : PendingRequest) (fate : Fate) :
    (nextRequest req fate).clientReqId = req.clientReqId := by
  rw [nextRequest]
  split <;> rfl

/-- After a PREPARE there is a COMMIT only when the fate is that. -/
theorem nextRequest_type (fate : Fate) (hprep : req.type = .prepare) :
    (nextRequest req fate).type ≠ .unknown ∧ ((nextRequest req fate).type = .commit → fate = .commit) := by
  rw [nextRequest]
  by_cases hretry : fate = .retry ∧ req.numRetries + 1 < maxRetries
  · rw [if_pos hretry]
    simp [hprep]
  · rw [if_neg hretry]
    cases fate <;> simp

/-- `CompleteOperation`, with the replies of all shards. -/
theorem completeOperation_spec (h : ClientOk g c s) (hreq : s.pendingRequest = some req)
    {msgs : StdMap Nat (StdMap Nat ReplyMessage)} (hall : AllReplied g c s.lastReqId req.ask msgs)
    {replies : StdMap Nat String} {fate : Fate}
    (hfate : fate = .commit → ∀ kv ∈ msgs.toList, g.result kv.1 c s.lastReqId = some .ok) :
    (clientGhost S c).Spec g (completeOperation (S.clientEnv c) fate)
      { s with pendingRequest := some { req with replies := replies } } fun _ g' t => ClientOk g' c t := by
  obtain ⟨hid, hask, -⟩ := h.pending hreq
  rw [completeOperation, Ghost.spec_modify_bind, Ghost.spec_get_bind]
  simp only [Ghost.spec_ofOption_bind]
  refine ⟨fun req' hreq' => ?_, fun _ => .same (h.toClientSaid.congr rfl)⟩
  obtain rfl : { req with replies := replies } = req' := Option.some.inj hreq'
  rw [Ghost.spec_ite]
  refine ⟨fun _ => ?_, fun _ => ?_⟩
  · rw [finish, Ghost.spec_assert_bind, Ghost.spec_modify]
    refine ⟨fun hfin => ?_, fun _ => .same (h.toClientSaid.congr rfl)⟩
    have hidle : s.lastReqId = 0 ∨ ∃ a, g.ask c s.lastReqId = some a ∧ a.type ≠ .prepare ∧
        ∀ q ∈ a.shards, (g.result q c s.lastReqId).isSome = true := by
      refine Or.inr ⟨req.ask, hask, fun hp => ?_, hall.shards⟩
      have hp' : req.type = .prepare := hp
      rcases hfin with hfin | hfin <;> rw [hp'] at hfin <;> cases hfin
    refine .same ⟨h.toClientSaid.congr rfl, h.txnid, h.last, ?_, fun _ => hidle, ?_, h.one⟩
    · exact fun hn => by cases hn
    · exact fun hh => absurd hh MessageSet.not_has_clear
  · rw [Ghost.spec_assert_bind]
    refine ⟨fun hprep => ?_, fun _ => .same (h.toClientSaid.congr rfl)⟩
    set next := nextRequest { req with replies := replies, clientReqId := s.lastReqId + 1 } fate with hnext
    have htype : next.type ≠ .unknown ∧ (next.type = .commit → fate = .commit) :=
      nextRequest_type fate hprep
    have hf : (s.lastReqId = 0 ∧ next.ask.type = .prepare) ∨ ∃ a, g.ask c s.lastReqId = some a ∧
        Follows a next.ask fun q => g.result q c s.lastReqId := by
      refine Or.inr ⟨req.ask, hask, hall.shards, Or.inl ⟨hprep, ?_, ?_, ?_, fun hcommit q hq => ?_⟩⟩
      · simp [hnext, PendingRequest.ask]
      · simp [hnext, PendingRequest.ask]
      · exact htype.1
      · have hfc : fate = .commit := htype.2 hcommit
        obtain ⟨ms, hms⟩ := hall.found q hq
        exact hfate hfc _ hms
    have hd : ∀ {c' k' a}, g.ask c' k' = some a → a.txnid = next.ask.txnid → c' = c := by
      intro c' k' a ha hid'
      refine g.disjoint ha hask (hid'.trans ?_)
      simp [hnext, PendingRequest.ask]
    have hc : c ∈ S.clients := g.client hask
    refine Ghost.Spec.advance (History.advances_put next.ask hc h.ask_eq_none hf hd) ?_
    simp only [Ghost.spec_modify_bind]
    refine sendRequest_spec next ?_ rfl
    refine h.put next h.ask_eq_none rfl rfl ?_ (fun x => ?_) (le_refl _) ?_ (fun hh => ?_) ?_ h.one
    · simp [hnext]
    · refine ⟨Or.inl, fun hx => hx.elim id ?_⟩
      rintro rfl
      simpa [hnext, PendingRequest.ask] using h.invoked hask
    · have := h.txnid _ (h.invoked hask)
      simpa [hnext, PendingRequest.ask] using this
    · exact absurd (MessageSet.has_setShardRequired hh) MessageSet.not_has_clear
    · simp [hnext]

/-- `HandleReply`. -/
theorem handleReply_spec (h : ClientOk g c s) {msg : ReplyMessage}
    (hmsg : g.result msg.shardNum c msg.clientreqid = some msg.type) :
    (clientGhost S c).Spec g (handleReply (S.clientEnv c) msg) s fun _ g' t => ClientOk g' c t := by
  rw [handleReply, Ghost.spec_get_bind, Ghost.spec_whenSome]
  refine ⟨fun req hreq => ?_, fun _ => .same h⟩
  obtain ⟨hid, hask, hrequired⟩ := h.pending hreq
  rw [Ghost.spec_when]
  refine ⟨fun heq => ?_, fun _ => .same h⟩
  have h' : ClientOk g c { s with replySet := s.replySet.add msg.clientreqid msg.shardNum 0 msg } := by
    refine ⟨h.toClientSaid.congr rfl, h.txnid, h.last, fun {req'} hreq' => ?_, h.idle, fun hh => ?_, ?_⟩
    · obtain ⟨hid', hask', hr⟩ := h.pending hreq'
      exact ⟨hid', hask', by simpa using hr⟩
    · rcases MessageSet.has_add hh with ⟨rfl, rfl, -, rfl⟩ | hh
      · exact hmsg
      · exact h.heard hh
    · simpa using h.one
  rw [Ghost.spec_modify_bind, Ghost.spec_get_bind, Ghost.spec_whenSome]
  refine ⟨fun msgs hq => ?_, fun _ => .same h'⟩
  have hall := h'.allReplied hreq (heq.trans hid) hq
  refine Ghost.Spec.bind (tally_spec h'.toClientSaid hreq hall.types) ?_
  rintro fate _ _ _ ⟨rfl, ⟨replies, rfl⟩, hfate⟩
  exact completeOperation_spec h' hreq hall fun hc => (hfate hc).2

end Dsnet.Spanner
