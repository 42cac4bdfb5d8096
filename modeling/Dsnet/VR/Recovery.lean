import Dsnet.VR.System
import Dsnet.VR.Effects

/-! Recovery isolation: what a replica that restarted with `initialize = false` sends before it has
    installed the log of a recovery response.

    `HandleRequest`, `HandlePrepare`, `HandlePrepareOK`, `HandleCommit` and the two request handlers
    look at the status first; the handlers of the view change and of `StateTransfer` do not. So a
    message of a later view takes the replica out of `STATUS_RECOVERING` with the log it happens to
    have (`recovering_replica_votes`). As long as no such message reaches it, the replica is
    `Isolated`, and every handler keeps it so and sends nothing that counts. -/

namespace Dsnet.VR
open Handler

/-! ### Votes -/

/-- The messages a replica counts in a quorum on behalf of their sender, recovery apart. -/
def ToReplicaMessage.isVote : ToReplicaMessage → Bool
  | .startViewChange _ | .doViewChange _ | .prepareOK _ => true
  | _ => false

/-! ### Watching a run -/

/-- A group, the replicas of it that have restarted and not yet installed the log of a recovery
    response, and the votes sent by replicas while they were so. -/
structure Watch where
  sys : Sys
  awaiting : Nat → Bool
  votes : List Packet

/-- Does the event deliver a recovery response to `r`? -/
def Event.recovers (s : Sys) (r : Nat) : Event → Bool
  | .deliver i _ => match s.net[i]? with
    | some ⟨_, dst, .recoveryResponse _⟩ => dst = r
    | _ => false
  | _ => false

/-- Is `r` waiting for its log after the event has led from `s` to `s'`? -/
def awaitingAfter (awaiting : Nat → Bool) (s s' : Sys) (e : Event) (r : Nat) : Bool :=
  match e with
  | .restart r' _ => r = r' || awaiting r
  | _ => awaiting r &&
      !(e.recovers s r && (s.replica r).status = .recovering && (s'.replica r).status = .normal)

/-- A step of the group, watched. -/
def Watch.step (G : Group) (w : Watch) (e : Event) : Option Watch :=
  (w.sys.step G e).map fun s' =>
    { sys := s'
      awaiting := awaitingAfter w.awaiting w.sys s' e
      votes := w.votes ++ (s'.net.drop w.sys.net.length).filter fun p =>
        p.msg.isVote && (List.range G.config.n).any fun r => p.src = .replica r && w.awaiting r }

/-- The watched runs of a group. -/
def watched (G : Group) : System Watch Event where
  init := { sys := Sys.initial G, awaiting := fun _ => false, votes := [] }
  step := Watch.step G

/-! ### The condition -/

/-- The messages that leave a replica in `STATUS_RECOVERING` as it is: those of the view change are
    not of a later view, and a state transfer in its view brings only committed entries. -/
def Harmless (s : Replica) : ToReplicaMessage → Prop
  | .startViewChange m => m.view ≤ s.view
  | .doViewChange m => m.view ≤ s.view
  | .startView m => m.view ≤ s.view
  | .stateTransfer m => m.view < s.view ∨
      (m.view = s.view ∧ ∀ e ∈ m.entries, e.opnum ≤ max s.lastCommitted m.opnum)
  | _ => True

instance (s : Replica) (m : ToReplicaMessage) : Decidable (Harmless s m) := by
  induction m using ToReplicaMessage.casesOn <;> unfold Harmless <;> infer_instance

/-- The event delivers nothing harmful to a replica that waits for its log. -/
def HarmlessStep (w : Watch) : Event → Prop
  | .deliver i _ => ∀ p ∈ w.sys.net[i]?, w.awaiting p.dst = true →
      Harmless (w.sys.replica p.dst) p.msg
  | _ => True

instance (w : Watch) (e : Event) : Decidable (HarmlessStep w e) := by
  induction e using Event.casesOn <;> unfold HarmlessStep <;> infer_instance

/-! ### A recovering replica is isolated -/

/-- The state of a replica that waits for its log. -/
structure Isolated (s : Replica) : Prop where
  status : s.status = .recovering
  timer : s.active .viewChange = false
  settled : s.lastOp ≤ s.lastCommitted

/-- Outputs without a vote. -/
abbrev NoVote (o : List Output) : Prop := Sends (·.isVote = false) o

variable {E : Env} {s : Replica}

theorem isolated_restarted (nonce : Nat) : Isolated (Replica.restarted E nonce) :=
  ⟨rfl, rfl, Nat.le_refl 0⟩

/-- A handler that keeps the replica isolated and sends no vote. -/
def KeepsIsolated (m : VRHandler Unit) : Prop :=
  ∀ s, Isolated s → Sat m s (fun _ s' o => Isolated s' ∧ NoVote o) (fun _ o => NoVote o)

theorem keepsIsolated_handlePrepare (remote : Addr) (m : PrepareMessage) :
    KeepsIsolated (handlePrepare E remote m) := by
  intro s h
  simp [handlePrepare, h.status, h]

/-- `CloseBatch` sends a Prepare, if anything. -/
theorem keepsIsolated_closeBatch : KeepsIsolated (closeBatch E) := by
  rintro s ⟨hstatus, htimer, hsettled⟩
  simp only [closeBatch, sat_bind, sat_get, sat_assert, sat_ofOption, sat_modify, sat_emit,
    List.nil_append, List.append_nil, sends_nil, sends_cons, implies_true, and_true,
    Output.Carries, ToReplicaMessage.isVote]
  intro _ _ rs _
  exact ⟨hstatus, by simpa [Replica.start, Replica.stop] using htimer, hsettled⟩

/-- The timers other than the view change timer. -/
theorem keepsIsolated_timeout {t : Timer} (ht : t ≠ .viewChange) :
    KeepsIsolated (timeout E t) := by
  intro s h
  cases t with
  | viewChange => exact absurd rfl ht
  | nullCommit =>
    simp only [timeout, sendNullCommit, sat_bind, sat_get, sat_assert, sat_emit, List.nil_append,
      sends_nil, sends_cons, Output.Carries, ToReplicaMessage.isVote, and_self, implies_true,
      and_true]
    exact fun _ => h
  | stateTransfer => exact ⟨⟨h.status, h.timer, h.settled⟩, sends_nil⟩
  | resendPrepare =>
    simp only [timeout, resendPrepare, sat_bind, sat_get, sat_assert, sat_ite, sat_pure, sat_emit,
      List.nil_append, sends_nil, sends_cons, Output.Carries, implies_true, and_true]
    refine fun _ => ⟨fun _ => h, fun _ => ⟨h, ?_⟩⟩
    cases s.lastPrepare <;> rfl
  | closeBatch => exact keepsIsolated_closeBatch s h
  | recovery =>
    simp only [timeout, sendRecoveryMessages, sat_bind, sat_get, sat_emit, List.nil_append,
      sends_nil, sends_cons, Output.Carries, ToReplicaMessage.isVote, and_self, and_true]
    exact h

/-- A transfer of committed entries is installed and executed; `SendPrepareOKs` then finds nothing
    uncommitted, and the queued Prepares are dropped. -/
theorem sat_handleStateTransfer_isolated {m : StateTransferMessage} (h : Isolated s)
    (hm : Harmless s (.stateTransfer m)) :
    Sat (handleStateTransfer E m) s (fun _ s' o => Isolated s' ∧ NoVote o)
      (fun _ o => NoVote o) := by
  have hview : ¬ m.view > s.view := by rcases hm with hm | hm <;> omega
  simp only [handleStateTransfer, resumeTransferred, sat_bind, sat_get, sat_ite, sat_pure, sat_when, sat_assert,
    sat_modify, sends_nil, sends_append, and_true, true_and]
  refine ⟨fun _ => h, fun hge => ?_⟩
  have hes : ∀ e ∈ m.entries, e.opnum ≤ max s.lastCommitted m.opnum :=
    (hm.resolve_left hge).2
  refine (sat_installTransferred_frame (le_max_of_le_left h.settled) hes).mono ?_ ?_
  · rintro old s₁ o ⟨⟨log, op, hop, rfl⟩, rfl⟩
    refine ⟨fun hgt => absurd hgt hview, fun _ => ⟨fun _ => ?_, fun _ => sends_nil⟩⟩
    refine sat_commitUpTo.mono ?_ ?_
    · rintro _ s₂ o₂ ⟨hcommits, hlc, ho₂⟩
      obtain ⟨lc, log', table, up, rfl⟩ := hcommits.frame
      have hlc' : lc = max s.lastCommitted m.opnum := hlc
      refine sat_sendPrepareOKs.mono ?_ ?_
      · rintro _ s₃ o₃ ⟨hframe, _, hsent⟩
        have ho₃ : o₃ = [] := by
          refine List.eq_nil_iff_forall_not_mem.mpr fun x hx => ?_
          obtain ⟨i, _, hi, hlt, _⟩ := hsent x hx
          simp only at hi hlt
          omega
        have h₃ : Isolated { s₃ with pendingPrepares := [] } := by
          rw [hframe]
          exact ⟨h.status, h.timer, by simp only; omega⟩
        refine (sat_forEach (A := fun _ o => NoVote o) (fun _ t o => Isolated t ∧ NoVote o)
          ⟨h₃, sends_nil⟩ ?_).mono ?_ ?_
        · rintro ⟨remote, p⟩ _ t o ⟨ht, ho⟩
          refine (keepsIsolated_handlePrepare remote p t ht).mono ?_ ?_
          · exact fun _ s' o' h' => ⟨h'.1, sends_append.mpr ⟨ho, h'.2⟩⟩
          · exact fun s' o' h' => sends_append.mpr ⟨ho, h'⟩
        · exact fun _ s' o' h' =>
            ⟨h'.1, sends_nil, Sends.of_isReply ho₂, ho₃ ▸ sends_nil, h'.2⟩
        · exact fun s' o' h' => ⟨sends_nil, Sends.of_isReply ho₂, ho₃ ▸ sends_nil, h'⟩
      · rintro s₃ o₃ ⟨_, _, hsent⟩
        refine ⟨sends_nil, Sends.of_isReply ho₂, fun x hx => ?_⟩
        obtain ⟨i, _, hi, hlt, _⟩ := hsent x hx
        simp only at hi hlt
        omega
    · rintro s₂ o₂ ⟨t, _, _, _, _, ho₂⟩
      exact ⟨sends_nil, Sends.of_isReply ho₂⟩
  · rintro s₁ o ⟨_, rfl⟩
    exact sends_nil

/-- A recovery response is counted, and installed when it completes a quorum. -/
theorem sat_handleRecoveryResponse_isolated {m : RecoveryResponseMessage} (h : Isolated s) :
    Sat (handleRecoveryResponse E m) s
      (fun _ s' o => (Isolated s' ∨ s'.status = .normal) ∧ NoVote o) (fun _ o => NoVote o) := by
  have hcount : ∀ q, Isolated { s with recoveryResponseQuorum := q } :=
    fun _ => ⟨h.status, h.timer, h.settled⟩
  simp only [handleRecoveryResponse, sat_bind, sat_get, sat_ite, sat_pure, sat_modify, sat_whenSome,
    sat_when, sat_assert, List.nil_append, sends_nil, and_true, implies_true]
  refine ⟨fun _ => Or.inl h, fun _ => ⟨fun _ => Or.inl h, fun _ => ⟨fun msgs _ _ => ⟨?_, ?_⟩, ?_⟩⟩⟩
  · refine fun lm _ => ⟨fun _ => ?_, fun _ => Or.inl (hcount _)⟩
    simp only [installRecovery, sat_bind, sat_get, sat_ofOption, sat_modify, sat_enterView,
      List.nil_append, sends_nil, implies_true, and_true]
    refine fun log _ => sat_commitUpTo.mono ?_ ?_
    · rintro _ s' o ⟨hc, _, ho⟩
      obtain ⟨_, _, _, _, rfl⟩ := hc.frame
      exact ⟨Or.inr rfl, Sends.of_isReply ho⟩
    · rintro s' o ⟨_, _, _, _, _, ho⟩
      exact Sends.of_isReply ho
  · exact fun _ => Or.inl (hcount _)
  · exact fun _ => Or.inl (hcount _)

/-- Whatever reaches an isolated replica: it stays so, or a recovery response has taken it out. -/
theorem sat_receiveMessage_isolated {wild : Option Nat} {remote : Addr} {m : ToReplicaMessage}
    (h : Isolated s) (hm : Harmless s m) :
    Sat (receiveMessage E wild remote m) s
      (fun _ s' o => (Isolated s' ∨ (∃ r, m = .recoveryResponse r) ∧ s'.status = .normal) ∧
        NoVote o)
      (fun _ o => NoVote o) := by
  have hkept : (Isolated s ∨ (∃ r, m = .recoveryResponse r) ∧ s.status = .normal) ∧ NoVote [] :=
    ⟨Or.inl h, sends_nil⟩
  cases m with
  | stateTransfer m =>
    exact (sat_handleStateTransfer_isolated h hm).mono
      (fun _ _ _ h' => ⟨Or.inl h'.1, h'.2⟩) (fun _ _ h' => h')
  | recoveryResponse m =>
    exact (sat_handleRecoveryResponse_isolated h).mono
      (fun _ _ _ h' => ⟨h'.1.imp_right fun hs => ⟨⟨m, rfl⟩, hs⟩, h'.2⟩) (fun _ _ h' => h')
  | startViewChange m =>
    have hle : m.view ≤ s.view := hm
    simp only [receiveMessage, handleStartViewChange, sat_bind, sat_get, sat_ite, sat_pure,
      List.nil_append]
    exact ⟨fun _ => hkept, fun hge => ⟨fun _ => hkept, fun hne =>
      absurd ⟨by omega, by simp [h.status]⟩ hne⟩⟩
  | doViewChange m =>
    have hle : m.view ≤ s.view := hm
    simp only [receiveMessage, handleDoViewChange, sat_bind, sat_get, sat_ite, sat_pure,
      List.nil_append]
    exact ⟨fun _ => hkept, fun hge => ⟨fun _ => hkept, fun hne =>
      absurd ⟨by omega, by simp [h.status]⟩ hne⟩⟩
  | startView m =>
    have hle : m.view ≤ s.view := hm
    simp only [receiveMessage, handleStartView, sat_bind, sat_get, sat_ite, sat_pure,
      List.nil_append]
    exact ⟨fun _ => hkept, fun hge => ⟨fun _ => hkept, fun hne =>
      absurd ⟨by omega, by simp [h.status]⟩ hne⟩⟩
  | request req => simp [receiveMessage, handleRequest, h.status, h]
  | unloggedRequest op => simp [receiveMessage, handleUnloggedRequest, h.status, h]
  | prepare m => simp [receiveMessage, handlePrepare, h.status, h]
  | prepareOK m => simp [receiveMessage, handlePrepareOK, h.status, h]
  | commit m => simp [receiveMessage, handleCommit, h.status, h]
  | requestStateTransfer m => simp [receiveMessage, handleRequestStateTransfer, h.status, h]
  | recovery m => simp [receiveMessage, handleRecovery, h.status, h]
  | notSet => simp [receiveMessage]

/-! ### Runs -/

/-- Every replica that waits for its log and still runs is isolated, and none has voted. -/
structure WatchInv (w : Watch) : Prop where
  isolated : ∀ r, w.awaiting r = true → w.sys.stopped r = false → Isolated (w.sys.replica r)
  votes : w.votes = []

theorem watchInv_init (G : Group) : WatchInv (watched G).init :=
  ⟨fun _ h => (by simp [watched] at h), rfl⟩

/-- The handler an event makes a waiting replica run leaves it isolated, unless it recovers it, and
    sends no vote. -/
theorem sat_handler_isolated {G : Group} {w : Watch} {e : Event} {r : Nat} {m : VRHandler Unit}
    (hw : WatchInv w) (hc : HarmlessStep w e) (he : e.handler G w.sys = some (r, m, s))
    (hr : e.isRestart = true ∨ w.awaiting r = true ∧ w.sys.stopped r = false) :
    Sat m s
      (fun _ s' o => (Isolated s' ∨ e.recovers w.sys r = true ∧
        (w.sys.replica r).status = .recovering ∧ s'.status = .normal) ∧ NoVote o)
      (fun _ o => NoVote o) := by
  rcases Event.of_handler he with ⟨wild, remote, msg, hmsg, rfl, rfl⟩ | ⟨t, rfl, ht, rfl, rfl⟩ |
    ⟨nonce, rfl, rfl, rfl⟩
  · obtain ⟨hawait, hlive⟩ := hr.resolve_left (by cases hmsg <;> simp [Event.isRestart])
    have hs := hw.isolated r hawait hlive
    have hm : Harmless (w.sys.replica r) msg := by
      cases hmsg with
      | request => trivial
      | unlogged => trivial
      | deliver hp => exact hc _ hp hawait
    refine (sat_receiveMessage_isolated hs hm).mono ?_ (fun _ _ h => h)
    rintro _ s' o ⟨hs' | ⟨⟨m, rfl⟩, hn⟩, ho⟩
    · exact ⟨Or.inl hs', ho⟩
    · cases hmsg with
      | deliver hp => exact ⟨Or.inr ⟨by simp [Event.recovers, hp], hs.status, hn⟩, ho⟩
  · obtain ⟨hawait, hlive⟩ := hr.resolve_left (by simp [Event.isRestart])
    have hs := hw.isolated r hawait hlive
    have hne : t ≠ .viewChange := by
      rintro rfl
      rw [hs.timer] at ht
      cases ht
    exact (keepsIsolated_timeout hne _ hs).mono (fun _ _ _ h => ⟨Or.inl h.1, h.2⟩) (fun _ _ h => h)
  · simp [sendRecoveryMessages, isolated_restarted, Output.Carries, ToReplicaMessage.isVote]

/-- A replica that waits after the step has restarted in it, or waited before it and has not
    recovered in it. -/
theorem of_awaitingAfter {awaiting : Nat → Bool} {s s' : Sys} {e : Event} {r : Nat}
    (h : awaitingAfter awaiting s s' e r = true) :
    (∃ nonce, e = .restart r nonce) ∨ awaiting r = true ∧ ¬ (e.recovers s r = true ∧
      (s.replica r).status = .recovering ∧ (s'.replica r).status = .normal) := by
  cases e with
  | restart r' nonce =>
    rcases (Bool.or_eq_true _ _).mp h with hr | hr
    · exact Or.inl ⟨nonce, by rw [of_decide_eq_true hr]⟩
    · exact Or.inr ⟨hr, by simp [Event.recovers]⟩
  | _ =>
    obtain ⟨hr, hno⟩ := (Bool.and_eq_true _ _).mp h
    exact Or.inr ⟨hr, fun ⟨h₁, h₂, h₃⟩ => by simp [h₁, h₂, h₃] at hno⟩

/-- Every step that delivers nothing harmful keeps the waiting replicas isolated and silent. -/
theorem watchInv_step {G : Group} {w w' : Watch} {e : Event} (hw : WatchInv w)
    (hc : HarmlessStep w e) (hstep : w.step G e = some w') : WatchInv w' := by
  obtain ⟨s', hs', rfl⟩ := Option.map_eq_some_iff.mp hstep
  obtain ⟨r, m, st, he, hrn, hlive, rfl⟩ := Sys.step_eq_some hs'
  have hsat := fun hr => sat_handler_isolated hw hc he hr
  refine ⟨fun r' hawait hlive' => ?_, ?_⟩
  · by_cases hrr : r' = r
    · subst hrr
      have hr : e.isRestart = true ∨ w.awaiting r' = true ∧ w.sys.stopped r' = false := by
        rcases of_awaitingAfter hawait with ⟨nonce, rfl⟩ | ⟨h, _⟩
        · exact Or.inl rfl
        · exact hlive.imp_right fun hl => ⟨h, hl⟩
      rcases (hsat hr).cases with ⟨_, s₁, o, hm, hs₁, _⟩ | ⟨s₁, o, hm, _⟩
      · simp only [Sys.after, hm, if_true] at hawait ⊢
        rcases hs₁ with hs₁ | ⟨hrec, hst, hn⟩
        · exact hs₁
        · rcases of_awaitingAfter hawait with ⟨nonce, rfl⟩ | ⟨_, hno⟩
          · cases hrec
          · exact absurd ⟨hrec, hst, by simpa using hn⟩ hno
      · simp [Sys.after, hm] at hlive'
    · have hbefore : w.awaiting r' = true := by
        rcases of_awaitingAfter hawait with ⟨nonce, rfl⟩ | ⟨h, _⟩
        · exact absurd (congrArg Prod.fst (Option.some.inj he)) hrr
        · exact h
      simp only [Sys.after, if_neg hrr] at hlive' ⊢
      exact hw.isolated r' hbefore hlive'
  · show w.votes ++ _ = []
    rw [hw.votes, List.nil_append, List.filter_eq_nil_iff]
    intro p hp hvote
    obtain ⟨hv, hfrom⟩ := (Bool.and_eq_true _ _).mp hvote
    obtain ⟨r', _, hr'⟩ := List.any_eq_true.mp hfrom
    obtain ⟨hsrc, hawait⟩ := (Bool.and_eq_true _ _).mp hr'
    simp only [Sys.after, List.drop_left] at hp
    obtain ⟨x, hx, hpx⟩ := List.mem_flatMap.mp hp
    obtain ⟨hsrc', hcarries⟩ := of_mem_packets hpx
    obtain rfl : r = r' := by simpa [hsrc'] using hsrc
    have hno : NoVote (m st).2.2 := by
      rcases (hsat (hlive.imp_right fun hl => ⟨hawait, hl⟩)).cases with
        ⟨_, s₁, o, hm, _, ho⟩ | ⟨s₁, o, hm, ho⟩ <;> rw [hm] <;> exact ho
    rw [hcarries (hno x hx)] at hv
    cases hv

/-- In a run that delivers nothing harmful to a replica that waits for its log, no such replica
    sends a StartViewChange, a DoViewChange or a PrepareOK. -/
theorem recovery_isolated {G : Group} {past : List Watch} {w : Watch}
    (h : Run (watched G) HarmlessStep past w) : w.votes = [] :=
  (h.invariant (I := fun _ w => WatchInv w) (watchInv_init G)
    fun _ _ _ _ _ hw hc hs => watchInv_step hw hc hs).votes

/-- Replica 2 restarts, both others answer, and it is in `STATUS_NORMAL` again without a vote. -/
theorem recovery_isolated_complete : ∃ past w, Run (watched threeReplicas) HarmlessStep past w ∧
    ((w.sys.replica 2).status = .normal ∧ w.awaiting 2 = false) ∧ w.votes = [] := by
  obtain ⟨past, w, hr, hp⟩ := Run.exists_of_exec (watched threeReplicas) HarmlessStep
    [.restart 2 7, .deliver 0 none, .deliver 1 none, .deliver 2 none, .deliver 3 none]
    (fun w => decide ((w.sys.replica 2).status = .normal ∧ w.awaiting 2 = false))
    (by decide +kernel)
  exact ⟨past, w, hr, of_decide_eq_true hp, recovery_isolated hr⟩

/-- A StartViewChange of view 1 reaches replica 2 while it waits for its log: it answers with its
    own, which replica 1 counts. -/
theorem recovering_replica_votes : ∃ past w m, Run (watched threeReplicas) (fun _ _ => True) past w ∧
    w.awaiting 2 = true ∧ ⟨.replica 2, 1, .startViewChange m⟩ ∈ w.votes ∧
    (2, m) ∈ ((w.sys.replica 1).startViewChangeQuorum.messages 1).toList := by
  obtain ⟨past, w, hr, hp⟩ := Run.exists_of_exec (watched threeReplicas) (fun _ _ => True)
    [.restart 2 7, .timeout 1 .viewChange, .deliver 3 none, .deliver 5 none]
    (fun w => decide (w.awaiting 2 = true ∧
      ⟨.replica 2, 1, .startViewChange { view := 1, replicaidx := 2, lastcommitted := 0 }⟩ ∈ w.votes ∧
      (2, { view := 1, replicaidx := 2, lastcommitted := 0 }) ∈
        ((w.sys.replica 1).startViewChangeQuorum.messages 1).toList))
    (by decide +kernel)
  exact ⟨past, w, _, hr, of_decide_eq_true hp⟩

end Dsnet.VR
