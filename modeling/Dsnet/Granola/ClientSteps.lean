import Dsnet.Granola.ReplicaSteps

/-! The handlers of the clients keep the invariant of the shards. A client that is handed a reply is never
    stopped: the replies of all shards agree. -/

namespace Dsnet.Granola
open Handler Transaction Ghost

variable {σ : Type} {S : Shards σ} {U : Prop} {g g' : History S U} {c : Nat} {s t : Client}
  {req : PendingRequest}

/-- What client `c` does to the ghost. -/
abbrev clientGhost (S : Shards σ) (U : Prop) (c : Nat) : Ghost (History S U) Client Output :=
  (shardsInvariant S U).ghost (.client c)

theorem ClientSaid.congr (h : ClientSaid g c s) (hinv : t.invocations = s.invocations)
    (hcont : t.continued = s.continued) : ClientSaid g c t where
  invoked ha := hinv ▸ h.invoked ha
  continued := hcont ▸ h.continued

/-! ### Requests -/

/-- `SendRequest`. -/
theorem sendRequest_spec (h : ClientOk g c s) (hreq : s.pendingRequest = some req) :
    (clientGhost S U c).returning.Spec g (sendRequest (S.clientEnv c)) s fun _ g' t => ClientOk g' c t := by
  obtain ⟨hid, hask, -⟩ := h.pending hreq
  rw [sendRequest, spec_get_bind, spec_ofOption_some hreq]
  refine Ghost.Spec.bind (Ghost.Spec.forEach (fun rest g' t => g = g' ∧ s = t ∧
    ∀ kv ∈ rest, kv ∈ req.requests.toList) ?_ ⟨rfl, rfl, fun _ hkv => hkv⟩) ?_
  · rintro ⟨q, txn⟩ rest _ _ ⟨rfl, rfl, hrest⟩
    obtain ⟨hq, hrest⟩ := List.forall_mem_cons.mp hrest
    rw [spec_emit]
    refine .sends ⟨rfl, rfl, hrest⟩ (sent_of fun dst hd => ?_)
    obtain ⟨j, _, rfl⟩ := List.mem_map.mp hd
    exact ⟨rfl, req.ask, txn, hid ▸ hask, StdMap.find?_of_mem hq, rfl, rfl, rfl⟩
  · rintro _ _ _ _ ⟨rfl, rfl, -⟩
    rw [spec_modify]
    exact .same ⟨h.toClientSaid.congr rfl rfl, h.txnid, h.last, h.pending, h.heard, h.one⟩

/-- Nothing is asked under a number that has not been used. -/
theorem ClientOk.ask_eq_none (h : ClientOk g c s) {k : Nat} (hk : s.lastReqId < k) : g.ask c k = none := by
  by_contra hne
  obtain ⟨a, ha⟩ := Option.ne_none_iff_exists'.mp hne
  exact absurd (h.last ha) (by omega)

/-- The client asks for something under its next number. -/
theorem ClientOk.put (h : ClientOk g c s) (hreq : t.pendingRequest = some req) {hc}
    {hd : U → ∀ {c' k' a}, g.ask c' k' = some a → a.txnid = req.ask.txnid → c' = c}
    (hfresh : ∀ x ∈ s.continued, x.txnid ≠ req.txnid) (hlast : t.lastReqId = s.lastReqId + 1)
    (hid : req.clientReqId = t.lastReqId) (hempty : req.replies = StdMap.empty)
    (hinv : ∀ x, x ∈ t.invocations ↔ x ∈ s.invocations ∨ x = (req.txnid, req.requests))
    (hcont : t.continued = s.continued) (htxnid : s.txnid ≤ t.txnid) (htxnid' : req.txnid ≤ t.txnid)
    (hheard : ∀ {k q r m}, t.replySet.Has k q r m → s.replySet.Has k q r m)
    (hrequired : t.replySet.required t.lastReqId = some req.requests.size)
    (hone : t.replySet.replicaRequired = 1) :
    ClientOk (g.put c (s.lastReqId + 1) req.ask hc (h.ask_eq_none (Nat.lt_succ_self _)) hd) c t := by
  have hnew := h.ask_eq_none (Nat.lt_succ_self _)
  have hg := History.advances_put req.ask hc hnew hd
  refine ⟨⟨fun {k a} ha => ?_, fun x hx => ?_⟩, fun x hx => ?_, fun {k a} ha => ?_, fun {req'} hreq' => ?_,
    fun hh => (h.heard (hheard hh)).imp_right fun hr => hr.mono hg, hone⟩
  · rw [hinv]
    by_cases hk : k = s.lastReqId + 1
    · subst hk
      rw [History.ask_put_self] at ha
      cases ha
      exact Or.inr rfl
    · rw [History.ask_put_of_ne hk] at ha
      exact Or.inl (h.invoked ha)
  · rw [hcont] at hx
    obtain ⟨k, a, status, ha, htx, hte, hlater, hall, hst, hco⟩ := h.continued x hx
    refine ⟨k, a, status, hg.ask ha, htx, hte, fun k' b hk hb => ?_, fun q hq => hg.done (hall q hq),
      hst.mono hg, hco⟩
    by_cases hk' : k' = s.lastReqId + 1
    · subst hk'
      rw [History.ask_put_self] at hb
      cases hb
      rw [htx]
      exact (hfresh x hx).symm
    · rw [History.ask_put_of_ne hk'] at hb
      exact hlater k' b hk hb
  · rcases (hinv x).mp hx with hx | rfl
    · exact (h.txnid x hx).trans htxnid
    · exact htxnid'
  · by_cases hk : k = s.lastReqId + 1
    · rw [hk, hlast]
    · rw [History.ask_put_of_ne hk] at ha
      have := h.last ha
      omega
  · obtain rfl : req = req' := Option.some.inj (hreq.symm.trans hreq')
    rw [hcont]
    refine ⟨hid, ?_, hrequired, hempty, hfresh⟩
    rw [hlast]
    exact History.ask_put_self

/-- `Invoke`. -/
theorem invoke_spec (h : ClientOk g c s) (hc : c ∈ S.clients) (requests : StdMap Nat String) (arg : ClientArg)
    (hd : U → ∀ {c' k' a}, g.ask c' k' = some a → a.txnid = s.txnid + 1 → c' = c) :
    (clientGhost S U c).Spec g (invoke (S.clientEnv c) requests arg) s fun _ g' t => ClientOk g' c t := by
  rw [invoke, spec_get_bind, spec_assert_bind]
  refine ⟨fun _ => ?_, fun _ => .same h.toClientSaid⟩
  let req : PendingRequest := ⟨s.txnid + 1, s.lastReqId + 1, requests, StdMap.empty, arg, 0⟩
  refine Ghost.Spec.advance (History.advances_put req.ask hc (h.ask_eq_none (Nat.lt_succ_self _)) hd) ?_
  simp only [spec_modify_bind, spec_get_bind]
  refine Ghost.Spec.of_returning (sendRequest_spec ?_ (show _ = some req from rfl))
  refine h.put rfl (fun x hx => ?_) rfl rfl rfl (fun x => by simp [req]) rfl (Nat.le_succ _) (le_refl _)
    (fun hh => MessageSet.has_setShardRequired hh) MessageSet.required_setShardRequired h.one
  obtain ⟨k, a, _, ha, htx, -⟩ := h.continued x hx
  have hle : a.txnid ≤ s.txnid := h.txnid _ (h.invoked ha)
  have hid : req.txnid = s.txnid + 1 := rfl
  omega

/-! ### Replies -/

/-- The replies of all shards to the last request, which have this status. -/
structure AllReplied (g : History S U) (c k : Nat) (a : Ask) (status : Status)
    (msgs : StdMap Nat (StdMap Nat ReplyMessage)) : Prop where
  keys : msgs.keys = a.texts.keys
  one : ∀ kv ∈ msgs.toList, ∃ m, kv.2.toList = [(0, m)] ∧ m.status = status
  done : ∀ q ∈ a.shards, g.done q c k
  settled : g.Settled c k status

/-- A quorum has the replies of all shards. -/
theorem ClientOk.allReplied (h : ClientOk g c s) (hreq : s.pendingRequest = some req)
    {msgs : StdMap Nat (StdMap Nat ReplyMessage)} {k : Nat} (hk : k = s.lastReqId)
    (hq : s.replySet.checkForQuorum k = some msgs) {status : Status} (hset : g.Settled c k status) :
    AllReplied g c k req.ask status msgs := by
  subst hk
  obtain ⟨-, hask, hrequired, -⟩ := h.pending hreq
  obtain ⟨required, hmsgs, hsize, hone⟩ := MessageSet.checkForQuorum_eq_some hq
  obtain rfl : required = req.requests.size := by simpa [MessageSet.required, hmsgs] using hrequired
  have hheard : ∀ kv ∈ msgs.toList, ∀ x ∈ kv.2.toList, x.1 = 0 ∧
      g.Replied kv.1 c s.lastReqId x.2.status :=
    fun kv hkv x hx => h.heard ⟨msgs, _, kv.2, hmsgs, hkv, hx⟩
  have hsome : ∀ kv ∈ msgs.toList, ∃ m, (0, m) ∈ kv.2.toList := by
    intro kv hkv
    have hpos := hone kv hkv
    rw [h.one] at hpos
    obtain ⟨⟨r, m⟩, hx⟩ := List.exists_mem_of_length_pos hpos
    obtain rfl : r = 0 := (hheard kv hkv _ hx).1
    exact ⟨m, hx⟩
  have hsub : msgs.keys ⊆ req.ask.texts.keys := by
    intro q hq
    obtain ⟨ms, hms⟩ := StdMap.mem_keys.mp hq
    obtain ⟨m, hm⟩ := hsome _ hms
    obtain ⟨-, ⟨a, ha, hqa⟩, -⟩ := hheard _ hms _ hm
    obtain rfl : a = req.ask := Option.some.inj (ha.symm.trans hask)
    exact List.mem_toFinset.mpr hqa
  have hkeys := StdMap.keys_eq_of_subset hsub hsize
  refine ⟨hkeys, fun kv hkv => ?_, fun q hq => ?_, hset⟩
  · obtain ⟨m, hm⟩ := hsome kv hkv
    have hzero : kv.2.keys ⊆ {0} := by
      intro r hr
      obtain ⟨m', hm'⟩ := StdMap.mem_keys.mp hr
      exact Finset.mem_singleton.mpr (hheard kv hkv _ hm').1
    have hlen : kv.2.toList.length ≤ 1 := by
      have := Finset.card_le_card hzero
      rwa [StdMap.card_keys] at this
    obtain ⟨x, hx⟩ := List.length_eq_one_iff.mp (le_antisymm hlen (List.length_pos_of_mem hm))
    rw [hx, List.mem_singleton] at hm
    exact ⟨m, hm ▸ hx, (hheard kv hkv (0, m) (by simp [hx, hm])).2.2.2.unique hset⟩
  · have hq' : q ∈ req.ask.texts.keys := List.mem_toFinset.mpr hq
    obtain ⟨ms, hms⟩ := StdMap.mem_keys.mp (hkeys ▸ hq')
    obtain ⟨m, hm⟩ := hsome _ hms
    exact (hheard _ hms _ hm).2.2.1

/-- The loop of `HandleReply`. -/
theorem fillReplies_spec {status : Status} : ∀ {kvs : List (Nat × StdMap Nat ReplyMessage)} {s : Client}
    {req : PendingRequest}, s.pendingRequest = some req →
    (∀ kv ∈ kvs, kv.1 ∈ req.requests.keys ∧ ∃ m, kv.2.toList = [(0, m)] ∧ m.status = status) →
    (clientGhost S U c).returning.Spec g (fillReplies status kvs) s fun _ g' t => g = g' ∧
      ∃ replies, t = { s with pendingRequest := some { req with replies := replies } } ∧
        replies.keys = req.replies.keys ∪ (kvs.map Prod.fst).toFinset
  | [], s, req, hreq, _ => by
      rw [fillReplies, spec_pure]
      exact .same ⟨rfl, req.replies, by rw [← hreq], by simp⟩
  | kv :: kvs, s, req, hreq, h => by
      obtain ⟨⟨hkey, m, hm, hst⟩, hkvs⟩ := List.forall_mem_cons.mp h
      have hfind : kv.2.find? 0 = some m := StdMap.find?_of_mem (by rw [hm]; exact List.mem_singleton_self _)
      have hsize : kv.2.size = 1 := by rw [StdMap.size, hm]; rfl
      have hsome : (req.requests.find? kv.1).isSome = true :=
        StdMap.find?_isSome.mpr (List.mem_toFinset.mp hkey)
      rw [fillReplies, spec_get_bind, spec_ofOption_some hreq, spec_assert_of hsome, spec_assert_of hsize,
        spec_ofOption_some hfind, spec_assert_of hst, spec_modify_bind]
      refine (fillReplies_spec (show _ = some { req with replies := req.replies.insert kv.1 m.reply } from rfl)
        hkvs).mono ?_
      rintro _ _ t _ ⟨rfl, replies, ht, hkeys⟩
      refine ⟨rfl, replies, ht, hkeys.trans ?_⟩
      ext q
      simp only [StdMap.keys, Finset.mem_union, List.map_cons, List.toFinset_cons, Finset.mem_insert,
        List.mem_toFinset]
      rw [← StdMap.find?_isSome, StdMap.find?_insert, ← StdMap.find?_isSome]
      split_ifs with hq <;> simp [hq]

/-- `CompleteOperation`, with the replies of all shards. -/
theorem completeOperation_spec (h : ClientOk g c s) (hreq : s.pendingRequest = some req)
    {msgs : StdMap Nat (StdMap Nat ReplyMessage)} {status : Status}
    (hall : AllReplied g c s.lastReqId req.ask status msgs) {replies : StdMap Nat String} :
    (clientGhost S U c).returning.Spec g (completeOperation (S.clientEnv c) status)
      { s with pendingRequest := some { req with replies := replies } } fun _ g' t => ClientOk g' c t := by
  obtain ⟨hid, hask, -, -, hfresh⟩ := h.pending hreq
  rw [completeOperation, spec_modify_bind, spec_get_bind, spec_ofOption_some rfl]
  have hfinish : ∀ (st : Status) (n : Nat), st = .commit ∨ st = .abort → (st = .commit ↔ status = .commit) →
      (clientGhost S U c).returning.Spec g (finish { req with replies := replies, numRetries := n } st)
        { s with pendingRequest := some { req with replies := replies }, requestTimeout := false
                 replySet := s.replySet.clear } fun _ g' t => ClientOk g' c t := by
    intro st n hst hco
    rw [finish, spec_modify_bind, spec_assert_of hst, spec_modify]
    refine .same ⟨⟨h.invoked, fun x hx => ?_⟩, h.txnid, h.last, ?_, ?_, h.one⟩
    · rcases List.mem_append.mp hx with hx | hx
      · exact h.continued x hx
      · rw [List.mem_singleton.mp hx]
        refine ⟨s.lastReqId, req.ask, status, hask, rfl, rfl, fun k' b hk hb => ?_, hall.done, hall.settled, ?_⟩
        · rw [h.ask_eq_none hk] at hb
          cases hb
        · simpa using hco
    · exact fun hn => by cases hn
    · exact fun hh => absurd hh MessageSet.not_has_clear
  rw [spec_ite]
  refine ⟨fun hconflict => ?_, fun hne => hfinish status _ ?_ Iff.rfl⟩
  · rw [spec_ite]
    refine ⟨fun _ => ?_, fun _ => hfinish .abort _ (Or.inr rfl) (by simp [hconflict])⟩
    set next : PendingRequest :=
      { req with replies := StdMap.empty, clientReqId := s.lastReqId + 1, numRetries := req.numRetries + 1 }
    have hd : U → ∀ {c' k' a}, g.ask c' k' = some a → a.txnid = next.ask.txnid → c' = c :=
      fun hU {c' k' a} ha hid' => g.disjoint hU ha hask hid'
    refine Ghost.Spec.advance
      (History.advances_put next.ask (g.client hask) (h.ask_eq_none (Nat.lt_succ_self _)) hd) ?_
    rw [retryTransaction]
    simp only [spec_modify_bind]
    refine sendRequest_spec ?_ (show _ = some next from rfl)
    refine h.put rfl hfresh rfl rfl rfl (fun x => ?_) rfl (le_refl _) ?_ (fun hh => ?_)
      MessageSet.required_setShardRequired h.one
    · refine ⟨Or.inl, fun hx => hx.elim id ?_⟩
      rintro rfl
      exact h.invoked hask
    · exact h.txnid _ (h.invoked hask)
    · exact absurd (MessageSet.has_setShardRequired hh) MessageSet.not_has_clear
  · cases status with
    | commit => exact Or.inl rfl
    | abort => exact Or.inr rfl
    | conflict => exact absurd rfl hne

/-- `HandleReply`. -/
theorem handleReply_spec (h : ClientOk g c s) {src : Node} {msg : ReplyMessage}
    (hmsg : PacketOk g ⟨src, .client c, .reply msg⟩) :
    (clientGhost S U c).returning.Spec g (handleReply (S.clientEnv c) msg) s fun _ g' t => ClientOk g' c t := by
  have hmsg : g.Replied msg.shardNum c msg.clientreqid msg.status := hmsg
  rw [handleReply, spec_get_bind, spec_whenSome]
  refine ⟨fun req hreq => ?_, fun _ => .same h⟩
  obtain ⟨hid, hask, hrequired, hempty, -⟩ := h.pending hreq
  rw [spec_when]
  refine ⟨fun heq => ?_, fun _ => .same h⟩
  have hk : msg.clientreqid = s.lastReqId := heq.trans hid
  have h' : ClientOk g c { s with replySet := s.replySet.add msg.clientreqid msg.shardNum 0 msg } := by
    refine ⟨h.toClientSaid.congr rfl rfl, h.txnid, h.last, fun {req'} hreq' => ?_, fun hh => ?_, ?_⟩
    · obtain ⟨hid', hask', hr, hrest⟩ := h.pending hreq'
      exact ⟨hid', hask', by simpa using hr, hrest⟩
    · rcases MessageSet.has_add hh with ⟨rfl, rfl, rfl, rfl⟩ | hh
      · exact ⟨rfl, hmsg⟩
      · exact h.heard hh
    · simpa using h.one
  rw [spec_modify_bind, spec_get_bind, spec_whenSome]
  refine ⟨fun msgs hq => ?_, fun _ => .same h'⟩
  have hall := h'.allReplied hreq hk hq hmsg.2.2
  rw [hk] at hall
  have hsize : msgs.size = req.requests.size := by
    rw [← StdMap.card_keys, hall.keys, StdMap.card_keys]
    rfl
  -- the shard that has replied now is one of them
  obtain ⟨kv, hkv⟩ : ∃ kv, msgs.toList.head? = some kv := by
    obtain ⟨⟨a, ha, hqa⟩, -⟩ := hmsg
    rw [hk] at ha
    obtain rfl : a = req.ask := Option.some.inj (ha.symm.trans hask)
    have hqa' : msg.shardNum ∈ req.ask.texts.keys := List.mem_toFinset.mpr hqa
    rw [← hall.keys] at hqa'
    obtain ⟨ms, hms⟩ := StdMap.mem_keys.mp hqa'
    exact Option.ne_none_iff_exists'.mp fun hno => List.ne_nil_of_mem hms (List.head?_eq_none_iff.mp hno)
  obtain ⟨first, hfirst, hst⟩ := hall.one kv (List.mem_of_mem_head? hkv)
  have hfind : (msgs.toList.head?.bind fun kv => kv.2.find? 0) = some first := by
    rw [hkv, Option.bind_some]
    exact StdMap.find?_of_mem (by rw [hfirst]; exact List.mem_singleton_self _)
  rw [handleQuorum, spec_get_bind, spec_ofOption_some hreq, spec_assert_of hsize, spec_ofOption_some hfind]
  refine Ghost.Spec.bind (fillReplies_spec hreq fun kv hkv => ⟨?_, ?_⟩) ?_
  · have hkey : kv.1 ∈ msgs.keys := StdMap.mem_keys.mpr ⟨_, hkv⟩
    rwa [hall.keys] at hkey
  · rw [hst]
    exact hall.one kv hkv
  rintro _ _ _ _ ⟨rfl, replies, rfl, hkeys⟩
  have hsize' : req.requests.size = replies.size := by
    rw [← hsize, ← StdMap.card_keys, ← StdMap.card_keys, hkeys, hempty]
    simp [StdMap.keys]
  rw [spec_get_bind, spec_ofOption_some rfl, spec_assert_of hsize', hst]
  exact completeOperation_spec h' hreq hall

end Dsnet.Granola
