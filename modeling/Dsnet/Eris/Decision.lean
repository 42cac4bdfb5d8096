import Dsnet.Eris.Client

/-! The decisions of an Eris client. It sends a COMMIT or an ABORT for a general transaction on the word
    of a leader of each shard (`Vouched`): the leader and the others of a quorum have replied to the
    PREPARE at one opnum in one view. Which of the two it sends is what these leaders say, and their
    replies are what the application is given (`Decision`). -/

namespace Dsnet.Eris.Client
open Handler

/-- The shards that a request is for. -/
def shards (m : RequestMessage) : List Nat := m.request.ops.map (·.shard)

/-- The request is one of the second phase. -/
def IsDecision (m : RequestMessage) : Prop := m.type = .commit ∨ m.type = .abort

/-- The client has sent the request. -/
def Sent (o : List Output) (m : RequestMessage) : Prop := ∃ groups, Output.send m groups ∈ o

/-- The reply answers request `reqid` of the client, for a shard. -/
structure Answers (E : Env) (reqid shard : Nat) (m : ReplyMessage) : Prop where
  clientid : m.clientid = E.clientid
  clientreqid : m.clientreqid = reqid
  shardNum : m.shardNum = shard

/-- The leader of a shard has replied, and so have as many of the shard's replicas as make a quorum, it
    among them, at the same opnum in the same view and session. -/
structure Vouched (E : Env) (received : List ReplyMessage) (reqid shard : Nat) (leader : ReplyMessage) :
    Prop where
  heard : leader ∈ received
  answers : Answers E reqid shard leader
  leads : E.config.getLeaderIndex leader.view.viewNum = leader.replicaNum
  quorum : ∃ Q : Finset Nat, E.config.quorumSize ≤ Q.card ∧ leader.replicaNum ∈ Q ∧
    ∀ i ∈ Q, ∃ m ∈ received, Answers E reqid shard m ∧ m.replicaNum = i ∧
      m.opNum = leader.opNum ∧ m.view = leader.view

/-- The request `m` of the second phase is what the leaders' replies to the first one lead to. -/
structure Decision (E : Env) (received : List ReplyMessage) (o : List Output) (m : RequestMessage)
    (leader : Nat → ReplyMessage) : Prop where
  prepared : ∃ p, Sent o p ∧ p.type = .prepare ∧ p.txnid = m.txnid ∧ shards p = shards m ∧
    ∀ shard ∈ shards m, Vouched E received p.request.clientreqid shard (leader shard)
  verdict : m.type = if ∀ shard ∈ shards m, (leader shard).saysCommit = true then .commit else .abort

/-- The replies are those of the leaders. -/
def RepliesOf (leader : Nat → ReplyMessage) (groups : List Nat) (replies : StdMap Nat String) : Prop :=
  ∀ shard ∈ groups, replies.find? shard = some ((leader shard).reply.getD "")

variable {E : Env} {received received' : List ReplyMessage} {o o' : List Output} {s : ErisClient}
  {req : PendingRequest} {m m' : RequestMessage} {reqid shard : Nat} {l : ReplyMessage}
  {leader : Nat → ReplyMessage}

theorem Sent.mono (ho : ∀ x ∈ o, x ∈ o') (h : Sent o m) : Sent o' m := by
  obtain ⟨groups, hm⟩ := h
  exact ⟨groups, ho _ hm⟩

theorem sent_append : Sent (o ++ o') m ↔ Sent o m ∨ Sent o' m := by
  simp only [Sent, List.mem_append, exists_or]

theorem Vouched.mono (hr : ∀ x ∈ received, x ∈ received') (h : Vouched E received reqid shard l) :
    Vouched E received' reqid shard l := by
  obtain ⟨Q, hcard, hmem, hQ⟩ := h.quorum
  refine { h with heard := hr _ h.heard, quorum := ⟨Q, hcard, hmem, fun i hi => ?_⟩ }
  obtain ⟨m, hm, hrest⟩ := hQ i hi
  exact ⟨m, hr m hm, hrest⟩

theorem Decision.mono (hr : ∀ x ∈ received, x ∈ received') (ho : ∀ x ∈ o, x ∈ o')
    (h : Decision E received o m leader) : Decision E received' o' m leader := by
  obtain ⟨p, hp, htype, htxn, hshards, hall⟩ := h.prepared
  exact { h with prepared := ⟨p, hp.mono ho, htype, htxn, hshards,
    fun shard hs => (hall shard hs).mono hr⟩ }

/-! ### Counting the replies of a shard -/

/-- The replies that are counted for a shard. -/
structure Tallied (E : Env) (received : List ReplyMessage) (reqid shard : Nat)
    (q : QuorumSet Nat ReplyMessage) : Prop where
  counted : ∀ k, ∀ x ∈ (q.messages k).toList, x.2 ∈ received ∧ Answers E reqid shard x.2 ∧
    x.2.replicaNum = x.1 ∧ x.2.opNum = k

theorem Tallied.mono {q : QuorumSet Nat ReplyMessage} (hr : ∀ x ∈ received, x ∈ received')
    (h : Tallied E received reqid shard q) : Tallied E received' reqid shard q :=
  ⟨fun k x hx => (h.counted k x hx).imp_left (hr _)⟩

theorem tallied_new (n : Nat) : Tallied E received reqid shard (QuorumSet.new n) :=
  ⟨fun _ x hx => by cases hx⟩

theorem Tallied.add {q : QuorumSet Nat ReplyMessage} (h : Tallied E received reqid shard q)
    (hl : l ∈ received) (ha : Answers E reqid shard l) :
    Tallied E received reqid shard (q.add l.opNum l.replicaNum l) := by
  refine ⟨fun k x hx => ?_⟩
  rcases QuorumSet.mem_messages_add hx with ⟨rfl, rfl⟩ | hx
  · exact ⟨hl, ha, rfl, rfl⟩
  · exact h.counted k x hx

/-- The leader's reply that is taken is one of the quorum's. -/
theorem latestLeader_mem {msgs : List (Nat × ReplyMessage)} (h : latestLeader E msgs = some l) :
    ∃ i, (i, l) ∈ msgs ∧ E.config.getLeaderIndex l.view.viewNum = i := by
  have hgen : ∀ (msgs : List (Nat × ReplyMessage)) (best : Option ReplyMessage),
      msgs.foldl (fun latest kv =>
        if isLeader E kv.2.view.viewNum kv.1 ∧ latest.elim 0 (·.view.viewNum) ≤ kv.2.view.viewNum
        then some kv.2 else latest) best = some l →
      best = some l ∨ ∃ i, (i, l) ∈ msgs ∧ E.config.getLeaderIndex l.view.viewNum = i := by
    intro msgs
    induction msgs with
    | nil => exact fun best h => Or.inl h
    | cons kv msgs ih =>
      intro best h
      rw [List.foldl_cons] at h
      rcases ih _ h with hbest | ⟨i, hi, hlead⟩
      · split_ifs at hbest with hkv
        · obtain rfl := Option.some.inj hbest
          exact Or.inr ⟨kv.1, List.mem_cons_self .., of_decide_eq_true hkv.1⟩
        · exact Or.inl hbest
      · exact Or.inr ⟨i, List.mem_cons_of_mem _ hi, hlead⟩
  exact (hgen msgs none h).resolve_left (by simp)

/-- A quorum of matching replies, the leader's among them. -/
theorem Tallied.vouched {q : QuorumSet Nat ReplyMessage} {k : Nat}
    (h : Tallied E received reqid shard q)
    (hlead : latestLeader E (q.messages k).toList = some l)
    (hcount : E.config.quorumSize ≤ (q.messages k).toList.countP fun kv => kv.2.view = l.view) :
    Vouched E received reqid shard l := by
  obtain ⟨i, hi, hleads⟩ := latestLeader_mem hlead
  obtain ⟨hrec, hans, hnum, hop⟩ := h.counted k _ hi
  refine ⟨hrec, hans, hleads.trans hnum.symm,
    (((q.messages k).toList.filter fun kv => kv.2.view = l.view).map Prod.fst).toFinset, ?_, ?_, ?_⟩
  · rw [StdMap.card_keys_filter]
    exact hcount
  · rw [List.mem_toFinset, List.mem_map]
    exact ⟨(i, l), List.mem_filter.mpr ⟨hi, by simp⟩, hnum.symm⟩
  · intro j hj
    obtain ⟨x, hx, rfl⟩ := List.mem_map.mp (List.mem_toFinset.mp hj)
    obtain ⟨hx, hview⟩ := List.mem_filter.mp hx
    obtain ⟨hrec', hans', hnum', hop'⟩ := h.counted k x hx
    exact ⟨x.2, hrec', hans', hnum', hop'.trans hop.symm, of_decide_eq_true hview⟩

/-! ### The state of the client -/

/-- The leaders' replies that the first phase of a transaction has accepted so far. -/
structure Accepted (E : Env) (received : List ReplyMessage) (req : PendingRequest)
    (leader : Nat → ReplyMessage) : Prop where
  vouched : ∀ shard, req.hasReplies.find? shard = some true →
    Vouched E received req.clientReqId shard (leader shard)
  replies : ∀ shard, req.hasReplies.find? shard = some true →
    req.replies.find? shard = some ((leader shard).reply.getD "")
  commit : req.txnType = .prepare → (req.commit = true ↔
    ∀ shard, req.hasReplies.find? shard = some true → (leader shard).saysCommit = true)

/-- What holds of the pending request. -/
structure Fits (E : Env) (received : List ReplyMessage) (o : List Output) (s : ErisClient)
    (req : PendingRequest) : Prop where
  type : req.msg.type = req.txnType
  txnid : req.msg.txnid = s.txnid
  reqid : req.clientReqId = s.lastReqId ∧ req.msg.request.clientreqid = s.lastReqId
  sent : Sent o req.msg
  forShards : shards req.msg = req.requests.toList.map Prod.fst
  replySet : s.replySet.toList.map Prod.fst = req.requests.toList.map Prod.fst
  hasReplies : req.hasReplies.toList.map Prod.fst = req.requests.toList.map Prod.fst
  replyKeys : req.replies.toList.map Prod.fst = req.requests.toList.map Prod.fst
  tallied : ∀ shard q, s.replySet.find? shard = some q → Tallied E received s.lastReqId shard q
  first : RequestType.isFirst req.txnType = true →
    (∃ leader, Accepted E received req leader) ∧ ∀ m, Sent o m → IsDecision m → m.txnid ≠ s.txnid
  second : RequestType.isFirst req.txnType = false → IsDecision req.msg ∧
    (∃ leader, Decision E received o req.msg leader ∧ RepliesOf leader (shards req.msg) req.replies) ∧
    ∀ m, Sent o m → IsDecision m → m.txnid = s.txnid → m = req.msg

/-- What a client has sent and told the application. -/
structure Said (E : Env) (received : List ReplyMessage) (o : List Output) : Prop where
  decided : ∀ m, Sent o m → IsDecision m → ∃ leader, Decision E received o m leader
  once : ∀ m m', Sent o m → Sent o m' → IsDecision m → IsDecision m' → m.txnid = m'.txnid → m = m'
  told : ∀ m requests replies commit, Output.continuation m requests replies commit ∈ o →
    m.type ≠ .independent → Sent o m ∧ commit = decide (m.type = .commit) ∧
      ∃ leader, Decision E received o m leader ∧ RepliesOf leader (shards m) replies

/-- The invariant of a client that runs. -/
structure Inv (E : Env) (received : List ReplyMessage) (o : List Output) (s : ErisClient) : Prop
    extends Said E received o where
  bound : ∀ m, Sent o m → m.txnid ≤ s.txnid
  pending : ∀ req, s.pendingRequest = some req → Fits E received o s req

/-! ### Sending requests -/

/-- `InvokeTxn` sends one request, which is then pending. -/
theorem invokeTxn_sat {requests replies : StdMap Nat String} {type : RequestType}
    (hs : s.pendingRequest = none) :
    Sat (invokeTxn E requests replies type) s
      (fun _ t o => ∃ req : PendingRequest, o = [.send req.msg req.groups] ∧
        req.txnType = type ∧ req.requests = requests ∧ req.replies = replies ∧ req.commit = true ∧
        req.clientReqId = t.lastReqId ∧ req.hasReplies = replies.map (fun _ _ => false) ∧
        req.msg = requestMessage E t.txnid t.lastReqId requests type ∧
        t.txnid = (if RequestType.isFirst type then s.txnid + 1 else s.txnid) ∧
        t.replySet = requests.map (fun _ _ => QuorumSet.new E.config.quorumSize) ∧
        t.pendingRequest = some req)
      (fun _ o => o = []) := by
  unfold invokeTxn sendRequest
  simp only [sat_bind, sat_get, sat_assert, sat_modify, sat_ofOption, sat_emit, hs, List.nil_append,
    List.append_nil, Option.some.injEq, forall_eq', reduceCtorEq, Option.isNone_none]
  refine ⟨fun _ => ⟨⟨{
      msg := requestMessage E (if RequestType.isFirst type then s.txnid + 1 else s.txnid)
        (s.lastReqId + 1) requests type
      clientReqId := s.lastReqId + 1, txnType := type, commit := true
      requests := requests, replies := replies, hasReplies := replies.map fun _ _ => false
      groups := requests.toList.map Prod.fst }, rfl, ?_⟩, ?_⟩, ?_⟩ <;> simp

@[simp] theorem shards_requestMessage (txnid reqid : Nat) (requests : StdMap Nat String)
    (type : RequestType) :
    shards (requestMessage E txnid reqid requests type) = requests.toList.map Prod.fst := by
  rw [shards, requestMessage, List.map_map]
  rfl

theorem not_isDecision {t : RequestType} (ht : RequestType.isFirst t = true) (hm : m.type = t) :
    ¬ IsDecision m := by
  rintro (h | h) <;> rw [← hm, h] at ht <;> cases ht

theorem Said.mono (hr : ∀ x ∈ received, x ∈ received') (h : Said E received o) : Said E received' o where
  decided m hm hd := by
    obtain ⟨leader, hl⟩ := h.decided m hm hd
    exact ⟨leader, hl.mono hr fun _ hx => hx⟩
  once := h.once
  told m requests replies commit hc ht := by
    obtain ⟨hm, hcommit, leader, hl, hrep⟩ := h.told m requests replies commit hc ht
    exact ⟨hm, hcommit, leader, hl.mono hr fun _ hx => hx, hrep⟩

/-- One more request is sent: none of the second phase, or the first one for its transaction. -/
theorem Said.send {groups : List Nat} (h : Said E received o)
    (hd : IsDecision m → (∃ leader, Decision E received o m leader) ∧
      ∀ m', Sent o m' → IsDecision m' → m'.txnid = m.txnid → m' = m) :
    Said E received (o ++ [.send m groups]) := by
  have hmono : ∀ x ∈ o, x ∈ o ++ [.send m groups] := fun x hx => List.mem_append_left _ hx
  have hsent : ∀ m', Sent (o ++ [.send m groups]) m' → Sent o m' ∨ m' = m := by
    intro m' hm'
    refine (sent_append.mp hm').imp_right ?_
    rintro ⟨g, hg⟩
    exact (Output.send.inj (List.mem_singleton.mp hg)).1
  refine ⟨fun m' hm' hd' => ?_, fun m₁ m₂ h₁ h₂ hd₁ hd₂ heq => ?_, ?_⟩
  · rcases hsent m' hm' with hm' | rfl
    · obtain ⟨leader, hl⟩ := h.decided m' hm' hd'
      exact ⟨leader, hl.mono (fun _ hx => hx) hmono⟩
    · obtain ⟨leader, hl⟩ := (hd hd').1
      exact ⟨leader, hl.mono (fun _ hx => hx) hmono⟩
  · rcases hsent m₁ h₁ with hold₁ | hnew₁ <;> rcases hsent m₂ h₂ with hold₂ | hnew₂
    · exact h.once m₁ m₂ hold₁ hold₂ hd₁ hd₂ heq
    · subst hnew₂
      exact (hd hd₂).2 m₁ hold₁ hd₁ heq
    · subst hnew₁
      exact ((hd hd₁).2 m₂ hold₂ hd₂ heq.symm).symm
    · rw [hnew₁, hnew₂]
  · intro m' requests replies commit hc ht
    obtain ⟨hm', hcommit, leader, hl, hrep⟩ := h.told m' requests replies commit
      ((List.mem_append.mp hc).resolve_right (by simp)) ht
    exact ⟨hm'.mono hmono, hcommit, leader, hl.mono (fun _ hx => hx) hmono, hrep⟩

/-- What holds of a request that has just been sent. -/
theorem fits_sent {requests replies : StdMap Nat String} {type : RequestType} {t : ErisClient}
    (hkeys : replies.toList.map Prod.fst = requests.toList.map Prod.fst)
    (htype : req.txnType = type) (hrequests : req.requests = requests) (hreplies : req.replies = replies)
    (hcommit : req.commit = true) (hreqid : req.clientReqId = t.lastReqId)
    (hhas : req.hasReplies = replies.map fun _ _ => false)
    (hmsg : req.msg = requestMessage E t.txnid t.lastReqId requests type)
    (hset : t.replySet = requests.map fun _ _ => QuorumSet.new E.config.quorumSize)
    (hsent : Sent o req.msg)
    (hfirst : RequestType.isFirst type = true → ∀ m, Sent o m → IsDecision m → m.txnid ≠ t.txnid)
    (hsecond : RequestType.isFirst type = false → IsDecision req.msg ∧
      (∃ leader, Decision E received o req.msg leader ∧ RepliesOf leader (shards req.msg) replies) ∧
      ∀ m, Sent o m → IsDecision m → m.txnid = t.txnid → m = req.msg) :
    Fits E received o t req where
  type := by rw [hmsg, htype]; rfl
  txnid := by rw [hmsg]; rfl
  reqid := ⟨hreqid, by rw [hmsg]; rfl⟩
  sent := hsent
  forShards := by rw [hmsg, hrequests, shards_requestMessage]
  replySet := by rw [hset, hrequests, StdMap.keys_map]
  hasReplies := by rw [hhas, hrequests, StdMap.keys_map, hkeys]
  replyKeys := by rw [hreplies, hrequests, hkeys]
  tallied shard q hq := by
    rw [hset, StdMap.find?_map] at hq
    obtain ⟨_, _, rfl⟩ := Option.map_eq_some_iff.mp hq
    exact tallied_new _
  first hf := by
    have hnone : ∀ shard, req.hasReplies.find? shard ≠ some true := by
      intro shard
      rw [hhas, StdMap.find?_map]
      cases replies.find? shard <;> simp
    refine ⟨⟨fun _ => ⟨0, 0, 0, 0, ⟨0, 0⟩, 0, none, none⟩, ?_, ?_, ?_⟩, hfirst (htype ▸ hf)⟩
    · exact fun shard hs => absurd hs (hnone shard)
    · exact fun shard hs => absurd hs (hnone shard)
    · exact fun _ => ⟨fun _ shard hs => absurd hs (hnone shard), fun _ => hcommit⟩
  second hf := hreplies ▸ hsecond (htype ▸ hf)

/-- The first request of a transaction. -/
theorem Inv.invokeFirst {requests replies : StdMap Nat String} {type : RequestType}
    (h : Inv E received o s) (hs : s.pendingRequest = none) (hf : RequestType.isFirst type = true)
    (hkeys : replies.toList.map Prod.fst = requests.toList.map Prod.fst) :
    Sat (invokeTxn E requests replies type) s (fun _ t o' => Inv E received (o ++ o') t)
      (fun _ o' => o' = []) := by
  refine (invokeTxn_sat hs).mono ?_ fun _ _ ho => ho
  rintro _ t _ ⟨req, rfl, htype, hrequests, hreplies, hcommit, hreqid, hhas, hmsg, htxn, hset, hp⟩
  rw [if_pos hf] at htxn
  have hmsgType : req.msg.type = type := by rw [hmsg]; rfl
  have hmsgTxn : req.msg.txnid = t.txnid := by rw [hmsg]; rfl
  have hnot : ¬ IsDecision req.msg := not_isDecision hf hmsgType
  have hbound : ∀ m, Sent (o ++ [.send req.msg req.groups]) m → m = req.msg ∨ m.txnid ≤ s.txnid := by
    intro m hm
    rcases sent_append.mp hm with hm | ⟨g, hg⟩
    · exact Or.inr (h.bound m hm)
    · exact Or.inl (Output.send.inj (List.mem_singleton.mp hg)).1
  refine ⟨h.toSaid.send fun hd => absurd hd hnot, fun m hm => ?_, fun req' hreq' => ?_⟩
  · rcases hbound m hm with rfl | hm
    · exact hmsgTxn.le
    · omega
  · obtain rfl := Option.some.inj (hp.symm.trans hreq')
    refine fits_sent hkeys htype hrequests hreplies hcommit hreqid hhas hmsg hset
      ⟨_, List.mem_append_right _ (List.mem_singleton_self _)⟩ (fun _ m hm hd => ?_) fun h0 => ?_
    · rcases hbound m hm with rfl | hm
      · exact absurd hd hnot
      · omega
    · rw [hf] at h0
      cases h0

/-- All shards have replied to the first phase of a general transaction. -/
theorem Inv.decide (s' : ErisClient) (h : Inv E received o s) (hs : s.pendingRequest = none)
    (hreq : Fits E received o s' req) (htxn : s'.txnid = s.txnid) (hprep : req.txnType = .prepare)
    (hall : ∀ kv ∈ req.hasReplies.toList, kv.2 = true) :
    Sat (invokeTxn E req.requests req.replies (if req.commit then .commit else .abort)) s
      (fun _ t o' => Inv E received (o ++ o') t) (fun _ o' => o' = []) := by
  obtain ⟨⟨leader, hacc⟩, hfresh⟩ := hreq.first (by rw [hprep]; rfl)
  have hall' : ∀ shard ∈ shards req.msg, req.hasReplies.find? shard = some true := by
    intro shard hshard
    rw [hreq.forShards, ← hreq.hasReplies, ← StdMap.find?_isSome, Option.isSome_iff_exists] at hshard
    obtain ⟨b, hb⟩ := hshard
    rw [hb]
    exact congrArg some (hall _ (StdMap.mem_of_find? hb))
  refine (invokeTxn_sat hs).mono ?_ fun _ _ ho => ho
  rintro _ t _ ⟨new, rfl, htype, hrequests, hreplies, hcommit, hreqid, hhas, hmsg, htxn', hset, hp⟩
  have hsecond : RequestType.isFirst (if req.commit then .commit else .abort) = false := by
    split_ifs <;> rfl
  rw [hsecond, if_neg (by decide)] at htxn'
  have hmsgTxn : new.msg.txnid = s'.txnid := by rw [hmsg, htxn, ← htxn']; rfl
  have hshards : shards new.msg = shards req.msg := by
    rw [hmsg, shards_requestMessage, hreq.forShards]
  have hdec : IsDecision new.msg := by
    have : new.msg.type = if req.commit then .commit else .abort := by rw [hmsg]; rfl
    rw [IsDecision, this]
    split_ifs <;> simp
  have hmono : ∀ x ∈ o, x ∈ o ++ [.send new.msg new.groups] := fun x hx => List.mem_append_left _ hx
  have hdecision : Decision E received o new.msg leader := by
    refine ⟨⟨req.msg, hreq.sent, hreq.type.trans hprep, hreq.txnid.trans hmsgTxn.symm, hshards.symm,
      fun shard hshard => ?_⟩, ?_⟩
    · rw [hshards] at hshard
      rw [hreq.reqid.2, ← hreq.reqid.1]
      exact hacc.vouched shard (hall' shard hshard)
    · have hiff : (∀ shard ∈ shards new.msg, (leader shard).saysCommit = true) ↔ req.commit = true := by
        rw [hacc.commit hprep, hshards]
        refine ⟨fun hc shard hs => hc shard ?_, fun hc shard hs => hc shard (hall' shard hs)⟩
        rw [hreq.forShards, ← hreq.hasReplies, ← StdMap.find?_isSome, hs]
        rfl
      rw [hmsg]
      simp only [hmsg] at hiff
      simp only [hiff]
      rfl
  have hreplied : RepliesOf leader (shards new.msg) req.replies := by
    intro shard hshard
    exact hacc.replies shard (hall' shard (hshards ▸ hshard))
  refine ⟨h.toSaid.send fun _ => ⟨⟨leader, hdecision⟩, fun m hm hd heq => ?_⟩, fun m hm => ?_,
    fun req' hreq' => ?_⟩
  · exact absurd (heq.trans hmsgTxn) (hfresh m hm hd)
  · rcases sent_append.mp hm with hm | ⟨g, hg⟩
    · rw [htxn']
      exact h.bound m hm
    · rw [(Output.send.inj (List.mem_singleton.mp hg)).1, hmsgTxn, htxn, htxn']
  · obtain rfl := Option.some.inj (hp.symm.trans hreq')
    refine fits_sent hreq.replyKeys htype hrequests hreplies hcommit hreqid hhas hmsg hset
      ⟨_, List.mem_append_right _ (List.mem_singleton_self _)⟩ (fun hf => ?_) fun _ =>
        ⟨hdec, ⟨leader, hdecision.mono (fun _ hx => hx) hmono, hreplied⟩, fun m hm hd heq => ?_⟩
    · rw [hsecond] at hf
      cases hf
    · rcases sent_append.mp hm with hm | ⟨g, hg⟩
      · rw [htxn', ← htxn] at heq
        exact absurd heq (hfresh m hm hd)
      · exact (Output.send.inj (List.mem_singleton.mp hg)).1

/-! ### Replies -/

theorem Fits.mono (hr : ∀ x ∈ received, x ∈ received') (h : Fits E received o s req) :
    Fits E received' o s req :=
  { h with
    tallied := fun shard q hq => (h.tallied shard q hq).mono hr
    first := fun hf => by
      obtain ⟨⟨leader, ha⟩, hfresh⟩ := h.first hf
      exact ⟨⟨leader, { ha with vouched := fun shard hs => (ha.vouched shard hs).mono hr }⟩, hfresh⟩
    second := fun hf => by
      obtain ⟨hd, ⟨leader, hl, hrep⟩, hone⟩ := h.second hf
      exact ⟨hd, ⟨leader, hl.mono hr fun _ hx => hx, hrep⟩, hone⟩ }

theorem Inv.mono (hr : ∀ x ∈ received, x ∈ received') (h : Inv E received o s) : Inv E received' o s :=
  { toSaid := h.toSaid.mono hr
    bound := h.bound
    pending := fun req hreq => (h.pending req hreq).mono hr }

/-- A reply is counted for its shard. -/
theorem Inv.tally {q : QuorumSet Nat ReplyMessage} (h : Inv E received o s)
    (hshard : shard ∈ s.replySet.toList.map Prod.fst) (hq : Tallied E received s.lastReqId shard q) :
    Inv E received o { s with replySet := s.replySet.insert shard q } := by
  refine { h with pending := fun req hreq => ?_ }
  have hf := h.pending req hreq
  refine { hf with replySet := (StdMap.keys_insert q hshard).trans hf.replySet, tallied := ?_ }
  intro i q' hq'
  by_cases hi : i = shard
  · subst hi
    rw [StdMap.find?_insert_self] at hq'
    obtain rfl := Option.some.inj hq'
    exact hq
  · rw [StdMap.find?_insert_of_ne _ _ hi] at hq'
    exact hf.tallied i q' hq'

theorem replies_accept_of_first (shard : Nat) (l : ReplyMessage)
    (hf : RequestType.isFirst req.txnType = true) :
    (req.accept shard l).replies = req.replies.insert shard (l.reply.getD "") := if_pos hf

theorem replies_accept_of_second (req : PendingRequest) (shard : Nat) (l : ReplyMessage)
    (hf : RequestType.isFirst req.txnType = false) : (req.accept shard l).replies = req.replies :=
  if_neg (by rw [hf]; decide)

/-- The leader's reply is accepted among those of the others. -/
theorem Accepted.accept (h : Accepted E received req leader)
    (hv : Vouched E received req.clientReqId shard l) (hf : RequestType.isFirst req.txnType = true)
    (hnew : req.hasReplies.find? shard ≠ some true) :
    Accepted E received (req.accept shard l) (Function.update leader shard l) := by
  have hhas : ∀ i, (req.accept shard l).hasReplies.find? i = some true →
      i = shard ∨ (i ≠ shard ∧ req.hasReplies.find? i = some true) := by
    intro i hi
    by_cases heq : i = shard
    · exact Or.inl heq
    · exact Or.inr ⟨heq, by rwa [← StdMap.find?_insert_of_ne _ true heq]⟩
  refine ⟨fun i hi => ?_, fun i hi => ?_, fun hprep => ?_⟩
  · rcases hhas i hi with rfl | ⟨hne, hi⟩
    · rw [Function.update_self]
      exact hv
    · rw [Function.update_of_ne hne]
      exact h.vouched i hi
  · rw [replies_accept_of_first shard l hf]
    rcases hhas i hi with rfl | ⟨hne, hi⟩
    · rw [StdMap.find?_insert_self, Function.update_self]
    · rw [StdMap.find?_insert_of_ne _ _ hne, Function.update_of_ne hne]
      exact h.replies i hi
  · have hcommit : (req.accept shard l).commit = true ↔ req.commit = true ∧ l.saysCommit = true := by
      have hprep' : req.txnType = .prepare := hprep
      simp only [PendingRequest.accept, hprep', true_and]
      cases l.saysCommit <;> simp
    rw [hcommit, h.commit hprep]
    constructor
    · rintro ⟨hold, hl⟩ i hi
      rcases hhas i hi with rfl | ⟨hne, hi⟩
      · rwa [Function.update_self]
      · rw [Function.update_of_ne hne]
        exact hold i hi
    · intro hall
      refine ⟨fun i hi => ?_, ?_⟩
      · have hne : i ≠ shard := by
          rintro rfl
          exact hnew hi
        have := hall i (by rwa [PendingRequest.accept, StdMap.find?_insert_of_ne _ _ hne])
        rwa [Function.update_of_ne hne] at this
      · have := hall shard (StdMap.find?_insert_self ..)
        rwa [Function.update_self] at this

theorem Inv.accept (h : Inv E received o s) (hreq : s.pendingRequest = some req)
    (hv : Vouched E received s.lastReqId shard l) (hshard : shard ∈ s.replySet.toList.map Prod.fst)
    (hnew : req.hasReplies.find? shard ≠ some true) :
    Inv E received o { s with pendingRequest := some (req.accept shard l) } := by
  refine { h with pending := fun req' hreq' => ?_ }
  obtain rfl := Option.some.inj hreq'
  have hf := h.pending req hreq
  rw [hf.replySet] at hshard
  refine { hf with hasReplies := ?_, replyKeys := ?_, first := fun hfirst => ?_, second := fun hsecond => ?_ }
  · exact (StdMap.keys_insert true (hf.hasReplies ▸ hshard)).trans hf.hasReplies
  · cases hfirst : RequestType.isFirst req.txnType with
    | true =>
      rw [replies_accept_of_first shard l hfirst]
      exact (StdMap.keys_insert _ (hf.replyKeys ▸ hshard)).trans hf.replyKeys
    | false =>
      rw [replies_accept_of_second req shard l hfirst]
      exact hf.replyKeys
  · obtain ⟨⟨leader, ha⟩, hfresh⟩ := hf.first hfirst
    exact ⟨⟨_, ha.accept (hf.reqid.1 ▸ hv) hfirst hnew⟩, hfresh⟩
  · have hreplies := replies_accept_of_second req shard l hsecond
    rw [hreplies]
    exact hf.second hsecond

/-- The pending request is completed when all shards have replied. -/
theorem completeOperation_sat (h : Inv E received o s) (hreq : s.pendingRequest = some req)
    (hall : ∀ kv ∈ req.hasReplies.toList, kv.2 = true) :
    Sat (completeOperation E req req.commit) s (fun _ t o' => Inv E received (o ++ o') t)
      (fun _ o' => o' = []) := by
  have hf := h.pending req hreq
  have hdone : Inv E received o
      { s with requestTimeout := false, replySet := StdMap.empty, pendingRequest := none } :=
    { h with pending := fun req' hreq' => by cases hreq' }
  unfold completeOperation
  simp only [sat_bind, sat_modify, sat_ite, sat_emit, List.nil_append]
  refine ⟨fun hprep => hdone.decide s rfl hf rfl hprep hall, fun hprep => ?_⟩
  have hmono : ∀ x ∈ o, x ∈ o ++ [.continuation req.msg req.requests req.replies
      (decide (req.txnType ≠ .abort))] := fun x hx => List.mem_append_left _ hx
  have hsent : ∀ m, Sent (o ++ [.continuation req.msg req.requests req.replies
      (decide (req.txnType ≠ .abort))]) m → Sent o m := by
    intro m hm
    refine (sent_append.mp hm).resolve_right ?_
    rintro ⟨g, hg⟩
    cases List.mem_singleton.mp hg
  refine ⟨⟨fun m hm hd => ?_, fun m m' hm hm' => h.once m m' (hsent m hm) (hsent m' hm'), ?_⟩,
    fun m hm => h.bound m (hsent m hm), fun req' hreq' => by cases hreq'⟩
  · obtain ⟨leader, hl⟩ := h.decided m (hsent m hm) hd
    exact ⟨leader, hl.mono (fun _ hx => hx) hmono⟩
  · intro m requests replies commit hc ht
    rcases List.mem_append.mp hc with hc | hc
    · obtain ⟨hm, hcommit, leader, hl, hrep⟩ := h.told m requests replies commit hc ht
      exact ⟨hm.mono hmono, hcommit, leader, hl.mono (fun _ hx => hx) hmono, hrep⟩
    · obtain ⟨rfl, rfl, rfl, rfl⟩ := Output.continuation.inj (List.mem_singleton.mp hc)
      have hsecond : RequestType.isFirst req.txnType = false := by
        rw [hf.type] at ht
        simp [RequestType.isFirst, hprep, ht]
      obtain ⟨hd, ⟨leader, hl, hrep⟩, _⟩ := hf.second hsecond
      refine ⟨hf.sent.mono hmono, ?_, leader, hl.mono (fun _ hx => hx) hmono, hrep⟩
      rw [← hf.type]
      rcases hd with hd | hd <;> rw [hd] <;> rfl

theorem handleQuorum_sat {k : Nat} {q : QuorumSet Nat ReplyMessage} (h : Inv E received o s)
    (hreq : s.pendingRequest = some req) (hq : Tallied E received s.lastReqId shard q)
    (hshard : shard ∈ s.replySet.toList.map Prod.fst)
    (hnew : req.hasReplies.find? shard ≠ some true) :
    Sat (handleQuorum E req shard (q.messages k)) s (fun _ t o' => o' = [] ∧ Inv E received o t)
      (fun _ o' => o' = []) := by
  unfold handleQuorum
  simp only [sat_whenSome, sat_bind, sat_assert, sat_when, sat_modify, List.nil_append]
  refine ⟨fun l hl => ⟨fun _ => ⟨fun hcount => ⟨trivial, ?_⟩, fun _ => ⟨trivial, h⟩⟩,
    fun _ => trivial⟩, fun _ => ⟨trivial, h⟩⟩
  exact h.accept hreq (hq.vouched hl hcount) hshard hnew

theorem handleReply_sat {msg : ReplyMessage} (h : Inv E received o s) (hmsg : msg ∈ received) :
    Sat (handleReply E msg) s (fun _ t o' => Inv E received (o ++ o') t) (fun _ o' => o' = []) := by
  unfold handleReply
  rw [sat_bind, sat_get]
  cases hreq : s.pendingRequest with
  | none => simpa using h
  | some req =>
    have hf := h.pending req hreq
    simp only [sat_ite, sat_pure, List.nil_append, List.append_nil]
    refine ⟨fun _ => h, fun hclient => ⟨fun _ => h, fun hreqid => ?_⟩⟩
    have hans : Answers E s.lastReqId msg.shardNum msg :=
      ⟨not_not.mp hclient, (not_not.mp hreqid).trans hf.reqid.1, rfl⟩
    rw [sat_bind, sat_ofOption]
    refine ⟨fun q hq => ?_, fun _ => rfl⟩
    have hshard : msg.shardNum ∈ s.replySet.toList.map Prod.fst :=
      StdMap.find?_isSome.mp (by rw [hq]; rfl)
    simp only [List.nil_append]
    rw [sat_bind]
    refine Sat.mono (Q := fun _ t o' => o' = [] ∧ Inv E received o t) (A := fun _ o' => o' = []) ?_ ?_
      fun _ _ ho => ho
    · simp only [sat_when, sat_bind, sat_modify, sat_whenSome, List.nil_append]
      refine ⟨fun hnew => ?_, fun _ => ⟨trivial, h⟩⟩
      have htally : Tallied E received s.lastReqId msg.shardNum (q.add msg.opNum msg.replicaNum msg) :=
        (hf.tallied _ q hq).add hmsg hans
      have hinv := h.tally hshard htally
      refine ⟨fun msgs hmsgs => ?_, fun _ => ⟨trivial, hinv⟩⟩
      obtain ⟨rfl, _⟩ := QuorumSet.checkForQuorum_eq_some.mp hmsgs
      refine handleQuorum_sat hinv hreq htally ?_ ?_
      · rw [StdMap.keys_insert _ hshard]
        exact hshard
      · intro htrue
        rw [htrue] at hnew
        cases hnew
    · rintro _ t _ ⟨rfl, ht⟩
      simp only [sat_bind, sat_get, sat_whenSome, sat_when, List.nil_append, List.append_nil]
      refine ⟨fun req' hreq' => ⟨fun hall => ?_, fun _ => ht⟩, fun _ => ht⟩
      exact completeOperation_sat ht hreq' fun kv hkv => List.all_eq_true.mp hall kv hkv

/-! ### Runs -/

/-- What holds all along a run. -/
structure Holds (E : Env) (s : Sys) : Prop where
  said : Said E s.received s.outputs
  running : s.stopped = false → Inv E s.received s.outputs s.client

theorem said_nil : Said E [] [] :=
  ⟨fun _ ⟨_, hm⟩ => (by cases hm), fun _ _ ⟨_, hm⟩ => (by cases hm), fun _ _ _ _ hc => (by cases hc)⟩

theorem holds_initial (E : Env) : Holds E (Sys.initial E) :=
  ⟨said_nil, fun _ => ⟨said_nil, fun _ ⟨_, hm⟩ => (by cases hm), fun _ hreq => (by cases hreq)⟩⟩

/-- Sending the pending request again. -/
theorem sendRequest_sat (h : Inv E received o s) :
    Sat sendRequest s (fun _ t o' => Inv E received (o ++ o') t) (fun _ o' => o' = []) := by
  unfold sendRequest
  simp only [sat_bind, sat_get, sat_ofOption, sat_emit, sat_modify, List.nil_append, List.append_nil]
  refine ⟨fun req hreq => ?_, fun _ => trivial⟩
  have hf := h.pending req hreq
  have hmono : ∀ x ∈ o, x ∈ o ++ [.send req.msg req.groups] := fun x hx => List.mem_append_left _ hx
  have hsent : ∀ m, Sent (o ++ [.send req.msg req.groups]) m → Sent o m := by
    intro m hm
    rcases sent_append.mp hm with hm | ⟨g, hg⟩
    · exact hm
    · rw [(Output.send.inj (List.mem_singleton.mp hg)).1]
      exact hf.sent
  refine ⟨h.toSaid.send fun hd => ⟨h.decided _ hf.sent hd, fun m' hm' hd' heq =>
    h.once m' req.msg hm' hf.sent hd' hd heq⟩, fun m hm => h.bound m (hsent m hm), fun req' hreq' => ?_⟩
  obtain rfl := Option.some.inj (hreq.symm.trans hreq')
  refine { hf with sent := hf.sent.mono hmono, first := fun hfirst => ?_, second := fun hsecond => ?_ }
  · obtain ⟨ha, hfresh⟩ := hf.first hfirst
    exact ⟨ha, fun m hm hd => hfresh m (hsent m hm) hd⟩
  · obtain ⟨hd, ⟨leader, hl, hrep⟩, hone⟩ := hf.second hsecond
    exact ⟨hd, ⟨leader, hl.mono (fun _ hx => hx) hmono, hrep⟩, fun m hm => hone m (hsent m hm)⟩

theorem invoke_sat {requests : StdMap Nat String} {indep : Bool} (h : Inv E received o s) :
    Sat (invoke E requests indep) s (fun _ t o' => Inv E received (o ++ o') t) (fun _ o' => o' = []) := by
  unfold invoke
  simp only [sat_bind, sat_get, sat_assert, List.nil_append]
  refine ⟨fun hnone => ?_, fun _ => trivial⟩
  exact h.invokeFirst (Option.isNone_iff_eq_none.mp hnone) (by split_ifs <;> rfl)
    (StdMap.keys_map ..)

theorem Holds.step {s s' : Sys} {e : Event} (h : Holds E s) (hs : s.step E e = some s') : Holds E s' := by
  obtain ⟨m, hm, hs⟩ := Option.bind_eq_some_iff.mp hs
  split_ifs at hs with hrun
  obtain rfl := Option.some.inj hs
  have hmono : ∀ x ∈ s.received, x ∈ s.received ++ e.replies := fun x hx => List.mem_append_left _ hx
  have hinv := (h.running hrun).mono hmono
  have hsat : Sat m s.client (fun _ t o' => Inv E (s.received ++ e.replies) (s.outputs ++ o') t)
      (fun _ o' => o' = []) := by
    cases e with
    | invoke requests indep =>
      obtain rfl := Option.some.inj hm
      exact invoke_sat hinv
    | reply msg =>
      obtain rfl := Option.some.inj hm
      exact handleReply_sat hinv (List.mem_append_right _ (List.mem_singleton_self _))
    | timeout =>
      simp only [Event.handler] at hm
      split_ifs at hm
      obtain rfl := Option.some.inj hm
      exact sendRequest_sat hinv
  rcases hsat.cases with ⟨_, t, o', heq, ht⟩ | ⟨t, o', heq, rfl⟩
  · rw [Sys.after, heq]
    exact ⟨ht.toSaid, fun _ => ht⟩
  · rw [Sys.after, heq]
    refine ⟨?_, fun hstop => by cases hstop⟩
    simpa using hinv.toSaid

/-- In every run, whatever replies arrive: the client sends a COMMIT or an ABORT only after a PREPARE of
    the same transaction that a quorum of each of its shards has answered, the leader among them: the
    COMMIT if all these leaders say so, the ABORT if one of them does not. There is only one of the
    two for a transaction, and the application is given what these leaders have replied. -/
theorem client_decides_soundly (E : Env) {past : List Sys} {s : Sys}
    (hr : Run (system E) (fun _ _ => True) past s) :
    (∀ m, Sent s.outputs m → IsDecision m → ∃ leader, Decision E s.received s.outputs m leader ∧
      (m.type = .commit → ∀ shard ∈ shards m, (leader shard).saysCommit = true) ∧
      (m.type = .abort → ∃ shard ∈ shards m, (leader shard).saysCommit = false)) ∧
    (∀ m m', Sent s.outputs m → Sent s.outputs m' → IsDecision m → IsDecision m' →
      m.txnid = m'.txnid → m = m') ∧
    ∀ m requests replies commit, Output.continuation m requests replies commit ∈ s.outputs →
      m.type ≠ .independent → Sent s.outputs m ∧ commit = decide (m.type = .commit) ∧
        ∃ leader, Decision E s.received s.outputs m leader ∧ RepliesOf leader (shards m) replies := by
  have h : Holds E s :=
    hr.invariant (I := fun _ s => Holds E s) (holds_initial E) fun _ _ _ _ _ h _ hs => h.step hs
  refine ⟨fun m hm hd => ?_, h.said.once, h.said.told⟩
  obtain ⟨leader, hl⟩ := h.said.decided m hm hd
  refine ⟨leader, hl, fun hc => ?_, fun ha => ?_⟩
  · have hv := hl.verdict
    rw [hc] at hv
    split_ifs at hv with hall
    exact hall
  · have hv := hl.verdict
    rw [ha] at hv
    split_ifs at hv with hall
    push Not at hall
    simpa using hall

/-! A client of groups of three invokes a general transaction on two shards; the leaders and one more
    replica of each reply to the PREPARE, and then to the COMMIT. -/

def threeReplicasClient : Env :=
  { config := { n := 3, f := 1 }, clientid := 7, nodeAddr := "" }

def twoShards : StdMap Nat String := (StdMap.empty.insert 0 "a").insert 1 "b"

/-- A reply in view 0 at opnum 1. -/
def replyOf (reqid shard replica : Nat) : Event :=
  .reply { clientid := 7, clientreqid := reqid, shardNum := shard, replicaNum := replica
           view := ⟨0, 0⟩, opNum := 1, commit := some 1, reply := some "ok" }

def committedRun : List Event :=
  [.invoke twoShards false, replyOf 1 0 0, replyOf 1 0 1, replyOf 1 1 1, replyOf 1 1 0,
    replyOf 2 0 0, replyOf 2 0 1, replyOf 2 1 1, replyOf 2 1 0]

theorem client_decides_soundly_commits : ∃ (s : Sys) (m : RequestMessage)
    (requests replies : StdMap Nat String),
    Output.continuation m requests replies true ∈ s.outputs ∧ m.type = .commit ∧
    ∃ leader, Decision threeReplicasClient s.received s.outputs m leader ∧
      RepliesOf leader (shards m) replies := by
  obtain ⟨past, s, hrun, hs⟩ := Run.exists_of_exec (system threeReplicasClient) (fun _ _ => True)
    committedRun (fun s => s.outputs.any fun x =>
      match x with
      | .continuation m _ _ commit => decide (m.type = .commit) && commit
      | .send .. => false) (by decide +kernel)
  obtain ⟨x, hx, hm⟩ := List.any_eq_true.mp hs
  cases x with
  | send m groups => cases hm
  | continuation m requests replies commit =>
    obtain ⟨htype, rfl⟩ := Bool.and_eq_true_iff.mp hm
    have htype := of_decide_eq_true htype
    obtain ⟨_, _, hdec⟩ := (client_decides_soundly threeReplicasClient hrun).2.2 m requests replies true
      hx (by rw [htype]; decide)
    exact ⟨s, m, requests, replies, hx, htype, hdec⟩

end Dsnet.Eris.Client
