import Dsnet.Tapir.Prepare

/-! What the slow path of a TAPIR client decides from the replies it has. `ConsensusSlowPath` hands them to
    `PrepareDecide` as a set of strings, which counts equal results of several replicas once. So it says
    what the replies amount to just when the OK results that differ are enough for a quorum, or nothing
    depends on them. -/

namespace Dsnet.Tapir
open Handler Transaction

variable (E : ClientEnv)

/-- The status of a reply. -/
def ClientEnv.statusOf (result : String) : Status := (E.wire.reply.parse result).status

/-- A replica replied FAILED. -/
def AnyFailed (msgs : StdMap Nat String) : Prop := ∃ x ∈ msgs.toList, E.statusOf x.2 = .failed

instance (msgs : StdMap Nat String) : Decidable (AnyFailed E msgs) :=
  inferInstanceAs (Decidable (∃ x ∈ msgs.toList, _))

/-- How many replicas replied OK. -/
def okReplies (msgs : StdMap Nat String) : Nat := msgs.toList.countP fun x => E.statusOf x.2 = .ok

/-- The results that say OK. -/
def okResults (msgs : StdMap Nat String) : Finset String :=
  ((msgs.toList.filter fun x => E.statusOf x.2 = .ok).map Prod.snd).toFinset

/-- What the replies amount to, replica by replica. -/
def slowPathStatus (msgs : StdMap Nat String) : Status :=
  if AnyFailed E msgs then .failed
  else if E.config.quorumSize ≤ okReplies E msgs then .ok
  else .retry

/-- The replies that a client has to a PREPARE. -/
def IRClient.repliesTo (s : IRClient) (reqId : Nat) : Option (StdMap Nat String) :=
  (s.pendingReqs reqId).bind fun req =>
    match req.kind with
    | .inl part => some (part.consensusReplyQuorum.messages (s.view, reqId))
    | .inr _ => none

theorem IRClient.repliesTo_eq_some {s : IRClient} {reqId : Nat} {msgs : StdMap Nat String}
    (h : s.repliesTo reqId = some msgs) : ∃ req part, s.pendingReqs reqId = some req ∧
      req.kind = .inl part ∧ part.consensusReplyQuorum.messages (s.view, reqId) = msgs := by
  obtain ⟨req, hk, h⟩ := Option.bind_eq_some_iff.mp h
  cases hkind : req.kind with
  | inl part =>
    rw [hkind] at h
    exact ⟨req, part, hk, hkind, Option.some.inj h⟩
  | inr q =>
    rw [hkind] at h
    cases h

/-- `ConsensusSlowPath` sends a result of this status to all replicas, and keeps it for retries. -/
def SlowPathDecides (s : IRClient) (reqId : Nat) (st : Status) : Prop :=
  Sat (consensusSlowPath E reqId) s
    (fun _ s' out => ∃ result req req' part',
      s.pendingReqs reqId = some req ∧
      out = [E.toGroup (.finalizeConsensus (E.clientid, req.clientReqId) result)] ∧
      s'.pendingReqs reqId = some req' ∧ req'.kind = .inl part' ∧ part'.decideResult = result ∧
      E.statusOf result = st)
    fun _ _ => False

variable {E}

/-- The status that the loop of `PrepareDecide` comes to. -/
theorem statusOf_decideLoop : ∀ (results : List String) (okCount : Nat) (reply : Option String),
    E.statusOf (decideLoop E results okCount reply) =
      if ∃ r ∈ results, E.statusOf r = .failed then .failed
      else if E.config.quorumSize ≤ okCount + results.countP fun r => E.statusOf r = .ok then .ok
      else .retry
  | [], okCount, reply => by simp [decideLoop, ClientEnv.statusOf]
  | r :: results, okCount, reply => by
      have hst : (E.wire.reply.parse r).status = E.statusOf r := rfl
      rw [decideLoop, hst]
      cases hr : E.statusOf r with
      | ok =>
        rw [statusOf_decideLoop results, List.countP_cons_of_pos (by simpa using hr)]
        simp [hr, Nat.add_assoc, Nat.add_comm 1]
      | failed => simp [hr]
      | retry =>
        rw [statusOf_decideLoop results, List.countP_cons_of_neg (by simp [hr])]
        simp [hr]

/-- The set has a result that says FAILED just when a replica has sent one. -/
theorem anyFailed_resultSet {msgs : StdMap Nat String} :
    (∃ r ∈ (resultSet msgs).toList, E.statusOf r = .failed) ↔ AnyFailed E msgs := by
  simp only [mem_resultSet]
  constructor
  · rintro ⟨r, ⟨i, hi⟩, hr⟩
    exact ⟨(i, r), hi, hr⟩
  · rintro ⟨⟨i, r⟩, hi, hr⟩
    exact ⟨r, ⟨i, hi⟩, hr⟩

/-- `PrepareDecide` counts results, not replies. -/
theorem statusOf_prepareDecide (msgs : StdMap Nat String) :
    E.statusOf (prepareDecide E (resultSet msgs)) =
      if AnyFailed E msgs then .failed
      else if E.config.quorumSize ≤ (okResults E msgs).card then .ok
      else .retry := by
  rw [prepareDecide, statusOf_decideLoop, Nat.zero_add, countP_resultSet]
  simp only [anyFailed_resultSet]
  rfl

/-- Different results are sent by different replicas. -/
theorem card_okResults_le (msgs : StdMap Nat String) : (okResults E msgs).card ≤ okReplies E msgs := by
  refine (List.toFinset_card_le _).trans (le_of_eq ?_)
  rw [List.length_map, okReplies, List.countP_eq_length_filter]

/-- What `ConsensusSlowPath` decides on is what `PrepareDecide` returns. -/
theorem slowPathDecides_iff {s : IRClient} {reqId : Nat} {msgs : StdMap Nat String}
    (h : s.repliesTo reqId = some msgs) {st : Status} :
    SlowPathDecides E s reqId st ↔ E.statusOf (prepareDecide E (resultSet msgs)) = st := by
  obtain ⟨req, part, hk, hkind, rfl⟩ := IRClient.repliesTo_eq_some h
  simp only [SlowPathDecides, consensusSlowPath, sat_bind, sat_get, hk, ofOption, sat_pure, hkind,
    sat_emit, sat_modify]
  constructor
  · rintro ⟨result, _, _, _, _, hout, _, _, _, rfl⟩
    simp only [List.nil_append, List.append_nil, List.cons.injEq, ClientEnv.toGroup,
      Cluster.Send.mk.injEq, Message.finalizeConsensus.injEq, true_and, and_true] at hout
    rw [hout.2]
  · intro hst
    exact ⟨_, req, _, _, rfl, rfl, by simp; rfl, rfl, rfl, hst⟩

/-- The slow path decides on what the replies amount to just when a replica replied FAILED, or fewer than a
    quorum replied OK, or as many OK results as a quorum has replicas are different. -/
theorem slow_path_status_iff {s : IRClient} {reqId : Nat} {msgs : StdMap Nat String}
    (h : s.repliesTo reqId = some msgs) :
    SlowPathDecides E s reqId (slowPathStatus E msgs) ↔
      AnyFailed E msgs ∨ okReplies E msgs < E.config.quorumSize ∨
        E.config.quorumSize ≤ (okResults E msgs).card := by
  have hle := card_okResults_le (E := E) msgs
  rw [slowPathDecides_iff h, statusOf_prepareDecide, slowPathStatus]
  by_cases hf : AnyFailed E msgs
  · simp [hf]
  by_cases hd : E.config.quorumSize ≤ (okResults E msgs).card
  · simp [hf, hd, hd.trans hle]
  by_cases hc : E.config.quorumSize ≤ okReplies E msgs
  · simp [hf, hd, hc]
  · simp [hf, hd, hc, not_le.mp hc]

/-- The reply of one replica has come in. -/
def oneReply : List Event := [.act (.client 0) (.prepare 1), .deliver 0, .deliver 1, .deliver 3]

theorem slow_path_status_iff_one : ∃ s : Sys KVTxnServer, ∃ msgs,
    IRClient.repliesTo (s.state (.client 0)) 1 = some msgs ∧ okReplies (threeReplicas.clientEnv 0) msgs = 1 ∧
    SlowPathDecides (threeReplicas.clientEnv 0) (s.state (.client 0)) 1
      (slowPathStatus (threeReplicas.clientEnv 0) msgs) := by
  obtain ⟨past, s, hr, hs⟩ := Run.exists_of_exec (system threeReplicas) (fun _ _ => True) oneReply
    (fun s => (IRClient.repliesTo (s.state (.client 0)) 1).any fun msgs =>
      okReplies (threeReplicas.clientEnv 0) msgs = 1) (by decide +kernel)
  obtain ⟨msgs, hmsgs, hone⟩ := (Option.any_eq_true _ _).mp hs
  have hone : okReplies (threeReplicas.clientEnv 0) msgs = 1 := of_decide_eq_true hone
  exact ⟨s, msgs, hmsgs, hone, (slow_path_status_iff hmsgs).mpr
    (Or.inr (Or.inl (by rw [hone]; decide)))⟩

/-- Two replicas of three send the same OK, and the slow path decides on RETRY. -/
theorem equal_replies_retry : ¬ ∀ past s, Run (system threeReplicas) (fun _ _ => True) past s →
    ∀ c reqId msgs, IRClient.repliesTo (s.state (.client c)) reqId = some msgs →
      SlowPathDecides (threeReplicas.clientEnv c) (s.state (.client c)) reqId
        (slowPathStatus (threeReplicas.clientEnv c) msgs) := by
  intro hall
  obtain ⟨past, s, hr, hs⟩ := Run.exists_of_exec (system threeReplicas) (fun _ _ => True)
    (oneReply ++ [.deliver 4])
    (fun s => (IRClient.repliesTo (s.state (.client 0)) 1).any fun msgs =>
      (threeReplicas.clientEnv 0).statusOf (prepareDecide (threeReplicas.clientEnv 0) (resultSet msgs)) ≠
        slowPathStatus (threeReplicas.clientEnv 0) msgs) (by decide +kernel)
  obtain ⟨msgs, hmsgs, hne⟩ := (Option.any_eq_true _ _).mp hs
  exact of_decide_eq_true hne ((slowPathDecides_iff hmsgs).mp (hall past s hr 0 1 msgs hmsgs))

end Dsnet.Tapir
