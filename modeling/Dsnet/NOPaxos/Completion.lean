import Dsnet.NOPaxos.Client

/-! When the client of NOPaxos completes a request. While a request is pending, `replyQuorum` has the last reply
    of each replica to it that has arrived, and nothing else; so those that `HandleReply` finds to be for the
    slot of the leader's reply are as many replicas. -/

namespace Dsnet.NOPaxos.Client
open Handler

variable {E : Env} {arrived : List ReplyMessage} {s t : NOPaxosClient} {req : PendingRequest} {o : List Output}

/-! ### What agreement is -/

/-- The last reply of replica `i` to request `reqid` among those that have arrived. -/
def latest (arrived : List ReplyMessage) (reqid i : Nat) : Option ReplyMessage :=
  arrived.reverse.find? fun m => m.clientreqid = reqid ∧ m.replicaidx = i

/-- The replica whose reply this is leads its view, and the last replies of a quorum of replicas, among them this
    one, are for one slot. -/
structure Agreed (E : Env) (arrived : List ReplyMessage) (reqid : Nat) (leader : ReplyMessage) : Prop where
  leads : E.config.getLeaderIndex leader.view = leader.replicaidx
  last : latest arrived reqid leader.replicaidx = some leader
  quorum : ∃ Q : Finset Nat, E.config.quorumSize ≤ Q.card ∧ leader.replicaidx ∈ Q ∧
    ∀ i ∈ Q, ∃ m, latest arrived reqid i = some m ∧ SameSlot m leader

/-- The requests that are completed here are the pending one, with the reply of a leader that a quorum agrees
    with. -/
def Completes (E : Env) (arrived : List ReplyMessage) (pending : Option PendingRequest) (o : List Output) : Prop :=
  ∀ request reply, .continuation request reply ∈ o → ∃ req leader, pending = some req ∧
    req.request = request ∧ leader.reply = some reply ∧ Agreed E arrived req.clientReqID leader

theorem completes_nil {pending : Option PendingRequest} : Completes E arrived pending [] :=
  fun _ _ h => absurd h List.not_mem_nil

theorem latest_append (m : ReplyMessage) (reqid i : Nat) : latest (arrived ++ [m]) reqid i =
    if m.clientreqid = reqid ∧ m.replicaidx = i then some m else latest arrived reqid i := by
  rw [latest, List.reverse_append, List.reverse_singleton, List.singleton_append]
  split_ifs with h
  · exact List.find?_cons_of_pos (decide_eq_true h)
  · exact List.find?_cons_of_neg fun hm => h (of_decide_eq_true hm)

theorem latest_spec {reqid i : Nat} {m : ReplyMessage} (h : latest arrived reqid i = some m) :
    m.clientreqid = reqid ∧ m.replicaidx = i := by
  have hm := List.find?_some (p := fun m : ReplyMessage => decide (m.clientreqid = reqid ∧ m.replicaidx = i)) h
  exact of_decide_eq_true hm

/-! ### The quorum set -/

/-- What `replyQuorum` has for a key and a replica. -/
def recorded (arrived : List ReplyMessage) (pending : Option PendingRequest) (key i : Nat) : Option ReplyMessage :=
  pending.bind fun req => if key = quorumKey req.clientReqID then latest arrived req.clientReqID i else none

/-- The replies to the pending request are all there is in the set. -/
def Inv (arrived : List ReplyMessage) (s : NOPaxosClient) : Prop :=
  ∀ key i, (s.replyQuorum.messages key).find? i = recorded arrived s.pendingRequest key i

/-- The members that the set depends on. -/
def NOPaxosClient.counted (s : NOPaxosClient) : Option PendingRequest × QuorumSet Nat ReplyMessage :=
  (s.pendingRequest, s.replyQuorum)

theorem Inv.same (h : Inv arrived s) (hs : Same NOPaxosClient.counted s t) : Inv arrived t := by
  obtain ⟨hpending, hq⟩ := Prod.mk.inj hs
  intro key i
  rw [hq, hpending]
  exact h key i

/-- The reply to the pending request is recorded. -/
theorem Inv.add {msg : ReplyMessage} (h : Inv arrived s) (hreq : s.pendingRequest = some req)
    (hmsg : msg.clientreqid = req.clientReqID) : Inv (arrived ++ [msg])
      { s with replyQuorum := s.replyQuorum.add (quorumKey msg.clientreqid) msg.replicaidx msg } := by
  intro key i
  have hi := h key i
  simp only [hreq, recorded, Option.bind_some] at hi ⊢
  rw [latest_append]
  by_cases hkey : key = quorumKey req.clientReqID
  · rw [if_pos hkey] at hi ⊢
    rw [← hmsg] at hkey
    rw [hkey, QuorumSet.messages_add_self, StdMap.find?_insert, ← hkey, hi]
    split_ifs with h₁ h₂ h₂
    · rfl
    · exact absurd ⟨hmsg, h₁.symm⟩ h₂
    · exact absurd h₂.2.symm h₁
    · rfl
  · rw [if_neg hkey] at hi ⊢
    rw [hmsg, QuorumSet.add]
    simp only
    rw [if_neg hkey, hi]

/-- A reply to another request changes nothing. -/
theorem Inv.ignore {msg : ReplyMessage} (h : Inv arrived s)
    (hmsg : ∀ req, s.pendingRequest = some req → msg.clientreqid ≠ req.clientReqID) : Inv (arrived ++ [msg]) s := by
  intro key i
  rw [h key i]
  cases hreq : s.pendingRequest with
  | none => rfl
  | some req =>
    simp only [recorded, Option.bind_some]
    rw [latest_append, if_neg (c := msg.clientreqid = _ ∧ _) fun hm => hmsg req hreq hm.1]

theorem inv_idle (hpending : s.pendingRequest = none) (hq : ∀ key, s.replyQuorum.messages key = StdMap.empty) :
    Inv arrived s := fun key i => by
  rw [hq, hpending]
  rfl

/-! ### The leader's reply -/

theorem LeaderSearch.next_spec {l : LeaderSearch} {kv : Nat × ReplyMessage} {i : Nat}
    (h : (l.next E kv).leaderIdx = some i) :
    l.leaderIdx = some i ∨ (i = kv.1 ∧ E.config.getLeaderIndex kv.2.view = i) := by
  have hkeep {l l' : LeaderSearch} (h : (if isLeader E kv.2.view kv.1 ∧ kv.2.view = l'.latestView ∧
      kv.2.sessnum = l'.latestSessnum then { l' with leaderIdx := some kv.1 } else l').leaderIdx = some i)
      (hl : l'.leaderIdx = some i → l.leaderIdx = some i) :
      l.leaderIdx = some i ∨ (i = kv.1 ∧ E.config.getLeaderIndex kv.2.view = i) := by
    split_ifs at h with hlead
    · have hi : kv.1 = i := Option.some.inj h
      exact Or.inr ⟨hi.symm, hi ▸ of_decide_eq_true hlead.1⟩
    · exact Or.inl (hl h)
  refine hkeep h fun hl => ?_
  split_ifs at hl <;> exact hl

theorem findLeader_spec {msgs : List (Nat × ReplyMessage)} {i : Nat} (h : findLeader E msgs = some i) :
    ∃ m, (i, m) ∈ msgs ∧ E.config.getLeaderIndex m.view = i := by
  have hfold : ∀ (rest : List (Nat × ReplyMessage)) (l : LeaderSearch),
      (rest.foldl (LeaderSearch.next E) l).leaderIdx = some i →
      l.leaderIdx = some i ∨ ∃ m, (i, m) ∈ rest ∧ E.config.getLeaderIndex m.view = i := by
    intro rest
    induction rest with
    | nil => exact fun l hl => Or.inl hl
    | cons kv rest ih =>
      intro l hl
      rcases ih (l.next E kv) hl with hl | ⟨m, hm, hlead⟩
      · refine (LeaderSearch.next_spec hl).imp_right ?_
        rintro ⟨rfl, hlead⟩
        exact ⟨kv.2, List.mem_cons_self .., hlead⟩
      · exact Or.inr ⟨m, List.mem_cons_of_mem kv hm, hlead⟩
  rcases hfold msgs ⟨0, 0, none⟩ h with h | h
  · cases h
  · exact h

/-- The replies of a quorum that are for the slot of the leader's. -/
theorem agreed_of_recorded {msgs : StdMap Nat ReplyMessage} {reqid i : Nat} {leader : ReplyMessage}
    (hmsgs : ∀ i, msgs.find? i = latest arrived reqid i) (hi : findLeader E msgs.toList = some i)
    (hleader : msgs.find? i = some leader)
    (hcount : E.config.quorumSize ≤ (msgs.toList.filter fun kv => decide (SameSlot kv.2 leader)).length) :
    Agreed E arrived reqid leader := by
  obtain ⟨m, hm, hlead⟩ := findLeader_spec hi
  obtain rfl : leader = m := Option.some.inj (hleader.symm.trans (StdMap.find?_of_mem hm))
  have hlast := (hmsgs i).symm.trans hleader
  obtain ⟨-, rfl⟩ := latest_spec hlast
  refine ⟨hlead, hlast, _, (StdMap.card_keys_filter msgs _).symm ▸ List.countP_eq_length_filter ▸ hcount, ?_, ?_⟩
  · refine List.mem_toFinset.mpr (List.mem_map_of_mem (List.mem_filter.mpr ⟨hm, ?_⟩))
    exact decide_eq_true ⟨rfl, rfl, rfl⟩
  · intro i hi
    obtain ⟨x, hx, rfl⟩ := List.mem_map.mp (List.mem_toFinset.mp hi)
    obtain ⟨hx, hslot⟩ := List.mem_filter.mp hx
    exact ⟨x.2, (hmsgs x.1).symm.trans (StdMap.find?_of_mem hx), of_decide_eq_true hslot⟩

/-! ### Every handler -/

/-- The client is as it should be after a handler, and completes a request only on agreement. -/
def Step (E : Env) (arrived : List ReplyMessage) (s t : NOPaxosClient) (o : List Output) : Prop :=
  Inv arrived t ∧ Completes E arrived s.pendingRequest o

theorem sendRequest_sat (arrived : List ReplyMessage) : Sat (sendRequest E) s
    (fun _ t o => Same NOPaxosClient.counted s t ∧ Completes E arrived none o) fun _ o => o = [] := by
  unfold sendRequest
  simp only [sat_bind, sat_get, sat_ofOption, sat_emit, sat_modify, List.nil_append, List.append_nil]
  refine ⟨fun pending _ => ⟨rfl, fun request reply h => ?_⟩, fun _ => trivial⟩
  split_ifs at h <;> cases List.mem_singleton.mp h

theorem Completes.of_none {pending : Option PendingRequest} (h : Completes E arrived none o) :
    Completes E arrived pending o := by
  intro request reply hm
  obtain ⟨_, _, hnone, -⟩ := h request reply hm
  cases hnone

theorem handleQuorum_sat {msgs : StdMap Nat ReplyMessage} (h : Inv arrived s) (hreq : s.pendingRequest = some req)
    (hmsgs : msgs = s.replyQuorum.messages (quorumKey req.clientReqID)) :
    Sat (handleQuorum E msgs) s (fun _ t o => Step E arrived s t o) fun _ o => o = [] := by
  have hfind : ∀ i, msgs.find? i = latest arrived req.clientReqID i := by
    intro i
    rw [hmsgs, h, hreq]
    exact if_pos rfl
  unfold handleQuorum completeOperation
  simp only [sat_whenSome, sat_bind, sat_get, sat_ofOption, sat_assert, sat_when, sat_modify, sat_emit,
    List.nil_append, List.append_nil]
  refine ⟨fun i hi => ⟨fun leader hleader => ⟨fun _ => ⟨fun hcount => ⟨fun reply hreply => ⟨fun req' hreq' => ?_,
    fun _ => trivial⟩, fun _ => trivial⟩, fun _ => ⟨h, completes_nil⟩⟩, fun _ => trivial⟩, fun _ => trivial⟩,
    fun _ => ⟨h, completes_nil⟩⟩
  obtain rfl := Option.some.inj (hreq.symm.trans hreq')
  refine ⟨inv_idle rfl fun _ => rfl, fun request reply' hm => ?_⟩
  cases List.mem_singleton.mp hm
  exact ⟨req, leader, hreq, rfl, hreply, agreed_of_recorded hfind hi hleader hcount⟩

theorem handleReply_sat {msg : ReplyMessage} (h : Inv arrived s) : Sat (handleReply E msg) s
    (fun _ t o => Step E (arrived ++ [msg]) s t o) fun _ o => o = [] := by
  unfold handleReply
  rw [sat_bind, sat_get]
  cases hreq : s.pendingRequest with
  | none => exact ⟨h.ignore fun req hr => absurd (hreq.symm.trans hr) (by simp), completes_nil⟩
  | some req =>
    simp only [sat_ite, sat_pure, sat_bind, sat_modify, sat_whenSome, List.nil_append]
    refine ⟨fun hne => ⟨h.ignore fun req' hreq' => ?_, completes_nil⟩, fun hmsg => ?_⟩
    · rwa [← Option.some.inj (hreq.symm.trans hreq')]
    · have hmsg := not_not.mp hmsg
      have hadd := h.add hreq hmsg
      refine ⟨fun msgs hmsgs => ?_, fun _ => ⟨hadd, completes_nil⟩⟩
      have hmsgs := (QuorumSet.checkForQuorum_eq_some.mp hmsgs).1
      exact (handleQuorum_sat hadd hreq (hmsg ▸ hmsgs)).mono (fun _ t o ht => ht) fun _ _ ho => ho

theorem invoke_sat (request : String) (h : Inv arrived s) : Sat (invoke E request) s
    (fun _ t o => Step E [] s t o) fun _ o => o = [] := by
  unfold invoke
  simp only [sat_bind, sat_get, sat_assert, sat_modify, List.nil_append]
  refine ⟨fun hnone => ?_, fun _ => trivial⟩
  have hnone := Option.isNone_iff_eq_none.mp hnone
  refine (sendRequest_sat []).mono (fun _ t o ht => ⟨Inv.same (fun key i => ?_) ht.1, ht.2.of_none⟩) fun _ _ ho => ho
  rw [h key i, hnone]
  exact (ite_self _).symm

/-! ### Runs -/

theorem step_sat {e : Event} {m : ClientHandler Unit} (hm : e.handler E s = some m) (h : Inv arrived s) :
    Sat m s (fun _ t o => Step E (e.arrive arrived) s t o) fun _ o => o = [] := by
  cases e with
  | invoke request => exact Option.some.inj hm ▸ invoke_sat request h
  | invokeUnlogged replicaIdx request =>
    obtain rfl := Option.some.inj hm
    unfold Client.invokeUnlogged
    simp only [sat_bind, sat_get, sat_assert, sat_modify, sat_emit, List.nil_append]
    refine ⟨fun _ => ⟨fun _ => ⟨h.same rfl, fun _ _ hc => ?_⟩, fun _ => trivial⟩, fun _ => trivial⟩
    cases List.mem_singleton.mp hc
  | message m =>
    cases m with
    | reply msg => exact Option.some.inj hm ▸ handleReply_sat h
    | unloggedReply reply =>
      obtain rfl := Option.some.inj hm
      unfold handleUnloggedReply
      simp only [sat_bind, sat_get, sat_whenSome, sat_modify, sat_emit, List.nil_append]
      refine ⟨fun _ _ => ⟨h.same rfl, fun _ _ hc => ?_⟩, fun _ => ⟨h, completes_nil⟩⟩
      cases List.mem_singleton.mp hc
  | requestTimeout =>
    simp only [Event.handler] at hm
    split_ifs at hm
    obtain rfl := Option.some.inj hm
    exact (sendRequest_sat arrived).mono (fun _ t o ht => ⟨h.same ht.1, ht.2.of_none⟩) fun _ _ ho => ho
  | unloggedRequestTimeout =>
    simp only [Event.handler] at hm
    split_ifs at hm
    obtain rfl := Option.some.inj hm
    unfold unloggedRequestTimeoutCallback
    simp only [sat_bind, sat_get, sat_ofOption, sat_modify, sat_emit, List.nil_append]
    refine ⟨fun _ _ => ⟨h.same rfl, fun _ _ hc => ?_⟩, fun _ => trivial⟩
    cases List.mem_singleton.mp hc

/-- While the client goes on, its quorum set has the replies to the pending request. -/
theorem Sys.step_inv {s s' : Sys} {e : Event} (h : s.stopped = false → Inv s.arrived s.client)
    (hs : s.step E e = some s') : (s'.stopped = false → Inv s'.arrived s'.client) ∧
      ∃ o, s'.outputs = s.outputs ++ o ∧ Completes E s'.arrived s.client.pendingRequest o := by
  obtain ⟨m, hm, hs⟩ := Option.bind_eq_some_iff.mp hs
  split_ifs at hs with hrun
  obtain rfl := Option.some.inj hs
  rcases (step_sat hm (h hrun)).cases with ⟨_, t, o, heq, ht⟩ | ⟨t, o, heq, ho⟩
  · rw [Sys.after, heq]
    exact ⟨fun _ => ht.1, o, rfl, ht.2⟩
  · rw [Sys.after, heq, ho]
    exact ⟨fun hstop => absurd hstop (by simp), [], rfl, completes_nil⟩

/-- However replies arrive: when a step completes a request, the last replies to it of a quorum of replicas are
    for one slot of a view, and the leader of that view is one of the quorum, whose reply is the one returned. -/
theorem client_completes_on_agreement (E : Env) {past : List Sys} {s s' : Sys} {e : Event} {o : List Output}
    {request reply : String} (hr : Run (system E) (fun _ _ => True) past s) (hs : (system E).step s e = some s')
    (ho : s'.outputs = s.outputs ++ o) (hc : .continuation request reply ∈ o) :
    ∃ req leader, s.client.pendingRequest = some req ∧ req.request = request ∧ leader.reply = some reply ∧
      Agreed E s'.arrived req.clientReqID leader := by
  have hinv : s.stopped = false → Inv s.arrived s.client :=
    hr.invariant (I := fun _ s => s.stopped = false → Inv s.arrived s.client)
      (fun _ => inv_idle rfl fun _ => rfl) fun _ _ _ _ _ h _ hs => (Sys.step_inv h hs).1
  obtain ⟨-, o', ho', hcompletes⟩ := Sys.step_inv hinv hs
  obtain rfl := List.append_cancel_left (ho.symm.trans ho')
  exact hcompletes request reply hc

/-! One follower has replied to a request, and then the leader does. -/

def threeReplicasClient : Env :=
  { config := { n := 3, f := 1 }, numSequencers := 1, clientid := 7, nodeAddr := "" }

/-- A reply to the first request, from slot 1 of view 0. -/
def replyFrom (replica : Nat) (reply : Option String) : Event :=
  .message (.reply
    { view := 0, sessnum := 1, opnum := 1, clientreqid := 1, replicaidx := replica, reply := reply })

theorem client_completes_on_agreement_two : ∃ (s s' : Sys) (req : PendingRequest) (leader : ReplyMessage),
    s.client.pendingRequest = some req ∧ req.request = "x" ∧ leader.reply = some "ok" ∧
      Agreed threeReplicasClient s'.arrived req.clientReqID leader := by
  obtain ⟨past, s, hr, hs⟩ := Run.exists_of_exec (system threeReplicasClient) (fun _ _ => True)
    [.invoke "x", replyFrom 1 none] (fun s => ((system threeReplicasClient).step s (replyFrom 0 (some "ok"))).any
      fun s' => s'.outputs = s.outputs ++ [.continuation "x" "ok"]) (by decide +kernel)
  obtain ⟨s', hs', ho⟩ := (Option.any_eq_true _ _).mp hs
  obtain ⟨req, leader, h⟩ := client_completes_on_agreement threeReplicasClient hr hs' (of_decide_eq_true ho)
    (List.mem_singleton_self _)
  exact ⟨s, s', req, leader, h⟩

end Dsnet.NOPaxos.Client
