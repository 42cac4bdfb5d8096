import Dsnet.Lib.Always
import Dsnet.MinBFT.Sequence

/-! The Commits that a MinBFT replica counts. It handles the messages of each sender in the order of their UIs, so
    a Commit of the primary comes after its Prepare; those of the other backups may come before it. There are
    `2f - 1` other backups, which is fewer than a quorum only when `f` is one. A replica that has a quorum for a
    batch which it has not logged stops. -/

namespace Dsnet.MinBFT
open Handler

variable {E : Env} {s s' : Replica}

/-! ### What decides which Commits are counted -/

/-- The members of a replica that have to do with its UIs and its quorums. -/
structure Control where
  nextUi : Nat → Nat
  uiQueue : Nat → StdMap Nat UIMessage
  viewNumber : Nat
  sUi : Nat
  sent : List UISub
  lowOp : Nat → Option Nat
  commitQuorum : QuorumSet Nat Commit

def Replica.control (s : Replica) : Control where
  nextUi := s.nextUi
  uiQueue := s.uiQueue
  viewNumber := s.viewNumber
  sUi := s.sUi
  sent := s.sent
  lowOp := s.lowOp
  commitQuorum := s.commitQuorum

/-- A Commit is counted. -/
def Control.count (k : Control) (c : Commit) : Control :=
  { k with commitQuorum := k.commitQuorum.add c.primaryUi c.replicaId c }

/-- A message is sent with the next UI. -/
def Control.send (k : Control) (sub : UISub) : Control := { k with sUi := k.sUi + 1, sent := k.sent ++ [sub] }

/-- Replica `r` sends its Commit for the batch with this UI, and counts it. -/
def Control.own (k : Control) (r ui : Nat) : Control :=
  (k.send (.commit ⟨k.viewNumber, ui, r⟩)).count ⟨k.viewNumber, ui, r⟩

/-- The batch with this UI begins at `lo`. -/
def Control.log (k : Control) (ui lo : Nat) : Control := { k with lowOp := Function.update k.lowOp ui (some lo) }

/-- None of it changes. -/
def Steady (s s' : Replica) (_ : List Output) : Prop := s'.control = s.control

instance : Composes Steady where
  refl _ := rfl
  trans h h' := Eq.trans h' h

theorem steady_append (req : Request) : Always Steady (append req) :=
  .bind always_get fun _ => .bind always_ofOption fun _ => always_modify fun _ => rfl

theorem steady_appendRequests : ∀ reqs, Always Steady (appendRequests reqs)
  | [] => always_pure
  | req :: reqs => .bind (steady_append req) fun _ => steady_appendRequests reqs

theorem steady_commitRange : ∀ n j, Always Steady (commitRange j n)
  | 0, _ => always_pure
  | n + 1, _ => .bind always_get fun _ => .bind always_ofOption fun _ => .bind (always_modify fun _ => rfl) fun _ =>
      steady_commitRange n _

theorem steady_executeLoop : ∀ n, Always Steady (executeLoop E n)
  | 0 => always_pure
  | n + 1 => .bind always_get fun _ => .whenSome fun _ => .when <| .bind
      (.bind (always_modify fun _ => rfl) fun _ => .bind always_get fun _ => .bind (always_modify fun _ => rfl) fun _ =>
        .whenSome fun _ => .bind (always_modify fun _ => rfl) fun _ => always_modify fun _ => rfl)
      fun _ => steady_executeLoop n

theorem steady_commitBatch (ui : Nat) : Always Steady (commitBatch E ui) :=
  .bind always_get fun _ => .bind always_ofOption fun _ => .bind (steady_commitRange _ _) fun _ => steady_executeLoop _

theorem steady_concludeEpilogue : Always Steady concludeEpilogue :=
  .bind always_get fun _ => .bind (.forEach (fun _ => always_emit fun _ => rfl) _) fun _ => always_modify fun _ => rfl

/-- However the handler ends, it leaves this. -/
def Leaves (m : RHandler Unit) (s : Replica) (P : Control → Prop) : Prop :=
  Sat m s (fun _ s' _ => P s'.control) fun s' _ => P s'.control

theorem addCommit_leaves (c : Commit) (s : Replica) : Leaves (addCommit E c) s (· = s.control.count c) := by
  simp only [Leaves, addCommit, sat_bind, sat_modify, sat_get, sat_whenSome]
  exact ⟨fun _ _ => (steady_commitBatch c.primaryUi _).mono (fun _ _ _ h => h) fun _ _ h => h, fun _ => rfl⟩

theorem handleCommit_leaves (c : Commit) (s : Replica) :
    Leaves (handleCommit E c) s fun k => k = s.control ∨ k = s.control.count c := by
  simp only [Leaves, handleCommit, sat_bind, sat_get, sat_ite, sat_pure]
  exact ⟨fun _ => Or.inl trivial, fun _ => (addCommit_leaves c s).mono (fun _ _ _ h => Or.inr h) fun _ _ h => Or.inr h⟩

theorem sendCommit_leaves (ui : Nat) (s : Replica) :
    Leaves (sendCommit E ui) s (· = s.control.own E.replicaIdx ui) := by
  simp only [Leaves, sendCommit, sendUi, sat_bind, sat_modify, sat_get, sat_emit]
  exact (addCommit_leaves _ _).mono (fun _ _ _ h => h) fun _ _ h => h

/-- A batch has been logged, and a Commit is sent for it. -/
def Accepted (E : Env) (ui : Nat) (k k' : Control) : Prop :=
  E.config.getLeaderIndex k.viewNumber ≠ E.replicaIdx ∧ ∃ lo, k' = (k.log ui lo).own E.replicaIdx ui

/-- Unless it is of an older view, a Prepare that is handled is logged and answered with a Commit. -/
theorem handlePrepare_leaves (m : Prepare) (ui : Nat) (s : Replica) :
    Sat (handlePrepare E m ui) s
      (fun _ s' _ => (m.viewNumber < s.viewNumber ∧ s'.control = s.control) ∨ Accepted E ui s.control s'.control)
      fun s' _ => s'.control = s.control ∨ Accepted E ui s.control s'.control := by
  simp only [handlePrepare, sat_bind, sat_get, sat_ite, sat_pure, sat_abort, sat_modify]
  refine ⟨fun hlt => Or.inl ⟨hlt, trivial⟩, fun _ => ⟨fun _ => Or.inl trivial, fun _ => ⟨fun _ => Or.inl trivial,
    fun hno => ?_⟩⟩⟩
  refine ((steady_appendRequests _ _).and (appendRequests_spec ..)).mono (fun _ s₁ _ h₁ => ?_) fun _ _ h => h.2.elim
  have hcontrol : Replica.control { s₁ with highOp := Function.update s₁.highOp ui (some s₁.log.lastOpnum) } =
      s.control.log ui (s.log.lastOpnum + 1) := h₁.1
  refine (sendCommit_leaves ui _).mono (fun _ s₂ _ h₂ => ?_) fun s₂ _ h₂ => ?_
  · rw [hcontrol] at h₂
    exact Or.inr ⟨hno, _, h₂⟩
  · rw [hcontrol] at h₂
    exact Or.inr ⟨hno, _, h₂⟩

/-- A batch has been closed: a Prepare is sent with the next UI, and then a Commit for it. -/
def Closed (r : Nat) (k k' : Control) : Prop :=
  ∃ lo m, k' = ((k.log (k.sUi + 1) lo).send (.prepare m)).own r (k.sUi + 1)

theorem closeBatch_leaves (s : Replica) : Leaves (closeBatch E) s (Closed E.replicaIdx s.control) := by
  simp only [Leaves, closeBatch, sendUi, sat_bind, sat_modify, sat_get, sat_emit]
  exact (sendCommit_leaves _ _).mono (fun _ _ _ h => ⟨_, _, h⟩) fun _ _ h => ⟨_, _, h⟩

/-- The primary has closed a batch, or nothing has changed. -/
def Requested (E : Env) (k k' : Control) : Prop :=
  k' = k ∨ E.config.getLeaderIndex k.viewNumber = E.replicaIdx ∧ Closed E.replicaIdx k k'

theorem handleNewRequest_leaves (req : Request) (entry : ClientEntry) (s : Replica) :
    Leaves (handleNewRequest E req entry) s (Requested E s.control) := by
  simp only [Leaves, handleNewRequest, queueRequest, sat_bind, sat_modify, sat_get, sat_ite, sat_pure]
  refine ⟨fun _ => Or.inl rfl, fun hleads => (steady_append req _).mono (fun _ s₁ _ h₁ => ?_) fun _ _ h => Or.inl h⟩
  have hcontrol : s₁.control = s.control := h₁
  have hclosed {k : Control} (h : Closed E.replicaIdx s₁.control k) : Requested E s.control k :=
    Or.inr ⟨not_not.mp hleads, hcontrol ▸ h⟩
  refine sat_when.mpr ⟨fun _ => ?_, fun _ => Or.inl hcontrol⟩
  exact (closeBatch_leaves _).mono (fun _ _ _ h => hclosed h) fun _ _ h => hclosed h

theorem handleRequest_leaves (remote : Addr) (req : Request) (s : Replica) :
    Leaves (receiveMessage E remote (.signedRequest req)) s (Requested E s.control) := by
  simp only [Leaves, receiveMessage, sat_bind]
  refine Sat.mono (Q := fun _ s' _ => Requested E s.control s'.control)
    (A := fun s' _ => Requested E s.control s'.control) ?_ (fun _ s₁ _ h₁ => ?_) fun _ _ h => h
  · simp only [handleRequest, sat_bind, sat_get]
    cases s.clientTable req.clientid with
    | none => exact handleNewRequest_leaves req _ s
    | some entry =>
      simp only [sat_ite, sat_pure, sat_whenSome, sat_emit]
      exact ⟨fun _ => Or.inl rfl, fun _ => ⟨fun _ => ⟨fun _ _ => Or.inl rfl, fun _ => Or.inl rfl⟩,
        fun _ => handleNewRequest_leaves req entry s⟩⟩
  · have hstay {s₂ : Replica} (h₂ : s₂.control = s₁.control) : Requested E s.control s₂.control := h₂ ▸ h₁
    exact (steady_concludeEpilogue s₁).mono (fun _ _ _ h => hstay h) fun _ _ h => hstay h

/-! ### What a replica has heard -/

section Hearing
variable {A : Nat → UIMessage → Prop} {L : List UISub} {K : Nat → Prop} {r : Nat} {k k' : Control}

/-- What has arrived at replica `r` is what its senders have sent with these UIs: `L` is the stream of the primary, in
    which a Commit comes after its Prepare, and `K` are UIs of batches that the replica has. -/
structure Sound (A : Nat → UIMessage → Prop) (L : List UISub) (K : Nat → Prop) (r : Nat) : Prop where
  stream : ∀ ui m, A ui m → m.replicaId = primary → ∃ i, ui = i + 1 ∧ L[i]? = some m.sub
  prepare : ∀ ui m q, A ui m → m.sub = .prepare q → m.replicaId = primary
  commit : ∀ ui m c, A ui m → m.sub = .commit c → c.replicaId = m.replicaId
  paced : ∀ i c, L[i]? = some (.commit c) → ∃ j m, c.primaryUi = j + 1 ∧ j < i ∧ L[j]? = some (.prepare m)
  known : ∀ ui m c, A ui m → m.sub = .commit c → m.replicaId = r ∨ r = primary → K c.primaryUi

/-- A Commit of replica `j` for this UI has arrived, and everything that `j` sent before it. -/
def Vote (A : Nat → UIMessage → Prop) (ui j : Nat) : Prop :=
  ∃ v m c, A v m ∧ m.replicaId = j ∧ m.sub = .commit c ∧ c.primaryUi = ui ∧
    ∀ i, 1 ≤ i → i < v → ∃ m', A i m' ∧ m'.replicaId = j

/-- A replica sends Commits for batches that it has, the primary after their Prepares. Those that it counts are for
    batches that it has, but for those of the other backups. -/
structure Votes (A : Nat → UIMessage → Prop) (K : Nat → Prop) (r : Nat) (k : Control) : Prop where
  known : ∀ ui, K ui → k.lowOp ui ≠ none
  own : ∀ c, UISub.commit c ∈ k.sent → k.lowOp c.primaryUi ≠ none
  paced : r = primary → k.sUi = k.sent.length ∧ ∀ i c, k.sent[i]? = some (UISub.commit c) → c.primaryUi ≤ i
  counted : ∀ ui, ∀ j ∈ (k.commitQuorum.messages ui).keys,
    k.lowOp ui ≠ none ∨ (r ≠ primary ∧ j ≠ primary ∧ j ≠ r ∧ Vote A ui j)

/-- A replica between two handlers: the messages of each sender that have been handled, and those that wait, have
    arrived, and it has the batches of the primary's Prepares that have been handled. -/
structure Heard (A : Nat → UIMessage → Prop) (L : List UISub) (K : Nat → Prop) (r : Nat) (k : Control) : Prop where
  view : k.viewNumber = 0
  next : ∀ i j, 1 ≤ j → j < k.nextUi i → ∃ m, A j m ∧ m.replicaId = i
  queued : ∀ i, ∀ x ∈ (k.uiQueue i).toList, A x.1 x.2 ∧ x.2.replicaId = i
  logged : r ≠ primary → ∀ i m, L[i]? = some (.prepare m) → i + 1 < k.nextUi primary → k.lowOp (i + 1) ≠ none
  votes : Votes A K r k

theorem Control.lowOp_log_self (k : Control) (ui lo : Nat) : (k.log ui lo).lowOp ui ≠ none := by
  simp [Control.log]

theorem Control.lowOp_log {ui : Nat} (lo : Nat) {v : Nat} (h : k.lowOp v ≠ none) : (k.log ui lo).lowOp v ≠ none := by
  by_cases hv : v = ui
  · rw [hv]
    exact k.lowOp_log_self ui lo
  · simpa [Control.log, hv] using h

theorem mem_keys_count {c : Commit} {ui j : Nat} (h : j ∈ ((k.count c).commitQuorum.messages ui).keys) :
    j ∈ (k.commitQuorum.messages ui).keys ∨ ui = c.primaryUi ∧ j = c.replicaId := by
  obtain ⟨m, hm⟩ := StdMap.mem_keys.mp h
  rcases QuorumSet.mem_messages_add hm with ⟨hui, heq⟩ | hm
  · exact Or.inr ⟨hui, (Prod.mk.inj heq).1⟩
  · exact Or.inl (StdMap.mem_keys.mpr ⟨m, hm⟩)

/-- The replica sends a Commit for a batch that it has, and counts it. -/
theorem Votes.sendOwn (h : Votes A K r k) {ui : Nat} (hui : k.lowOp ui ≠ none)
    (hpaced : r = primary → ui ≤ k.sent.length) : Votes A K r (k.own r ui) := by
  refine ⟨h.known, fun c hc => ?_, fun hr => ⟨?_, fun i c hc => ?_⟩, fun v j hj => ?_⟩
  · rcases List.mem_append.mp hc with hc | hc
    · exact h.own c hc
    · cases List.mem_singleton.mp hc
      exact hui
  · simp [Control.own, Control.count, Control.send, (h.paced hr).1]
  · rcases of_getElem?_concat hc with hold | ⟨hi, hnew⟩
    · exact (h.paced hr).2 i c hold
    · cases hnew
      exact hi ▸ hpaced hr
  · rcases mem_keys_count hj with hj | ⟨rfl, -⟩
    · exact h.counted v j hj
    · exact Or.inl hui

theorem Votes.log (h : Votes A K r k) (ui lo : Nat) : Votes A K r (k.log ui lo) :=
  ⟨fun v hv => Control.lowOp_log lo (h.known v hv), fun c hc => Control.lowOp_log lo (h.own c hc), h.paced,
    fun v j hj => (h.counted v j hj).imp_left (Control.lowOp_log lo)⟩

theorem Votes.sendPrepare (h : Votes A K r k) (m : Prepare) : Votes A K r (k.send (.prepare m)) := by
  refine ⟨h.known, fun c hc => ?_, fun hr => ⟨?_, fun i c hc => ?_⟩, h.counted⟩
  · rcases List.mem_append.mp hc with hc | hc
    · exact h.own c hc
    · cases List.mem_singleton.mp hc
  · simp [Control.send, (h.paced hr).1]
  · rcases of_getElem?_concat hc with hold | ⟨-, hnew⟩
    · exact (h.paced hr).2 i c hold
    · cases hnew

/-- The primary closes a batch. -/
theorem Heard.closed (h : Heard A L K r k) (hk : Closed r k k') : Heard A L K r k' := by
  obtain ⟨lo, m, rfl⟩ := hk
  refine ⟨h.view, h.next, h.queued, fun hr i q hi hlt => Control.lowOp_log lo (h.logged hr i q hi hlt), ?_⟩
  refine ((h.votes.log _ _).sendPrepare m).sendOwn (k.lowOp_log_self _ lo) fun hr => ?_
  rw [(h.votes.paced hr).1]
  simp [Control.send, Control.log]

/-- The next UI of sender `i` is counted. -/
def Control.countUi (k : Control) (i : Nat) : Control :=
  { k with nextUi := Function.update k.nextUi i (k.nextUi i + 1) }

theorem Control.nextUi_countUi_self (k : Control) (i : Nat) : (k.countUi i).nextUi i = k.nextUi i + 1 :=
  Function.update_self ..

theorem Control.nextUi_countUi_of_ne (k : Control) {i j : Nat} (h : j ≠ i) :
    (k.countUi i).nextUi j = k.nextUi j := Function.update_of_ne h ..

theorem Votes.countUi (h : Votes A K r k) (i : Nat) : Votes A K r (k.countUi i) :=
  ⟨h.known, h.own, h.paced, h.counted⟩

theorem Heard.next_countUi (h : Heard A L K r k) {m : UIMessage} (hm : A (k.nextUi m.replicaId) m) (i j : Nat)
    (h1 : 1 ≤ j) (hj : j < (k.countUi m.replicaId).nextUi i) : ∃ m', A j m' ∧ m'.replicaId = i := by
  by_cases hi : i = m.replicaId
  · subst hi
    rw [k.nextUi_countUi_self] at hj
    rcases Nat.lt_succ_iff_lt_or_eq.mp hj with hj | rfl
    · exact h.next _ j h1 hj
    · exact ⟨m, hm, rfl⟩
  · rw [k.nextUi_countUi_of_ne hi] at hj
    exact h.next i j h1 hj

/-- A Commit is counted, or not. -/
theorem Heard.commit (hS : Sound A L K r) (h : Heard A L K r k) {m : UIMessage} {c : Commit}
    (hm : A (k.nextUi m.replicaId) m) (hc : m.sub = .commit c)
    (hk : k' = k.countUi m.replicaId ∨ k' = (k.countUi m.replicaId).count c) : Heard A L K r k' := by
  have hlogged : r ≠ primary → ∀ i q, L[i]? = some (.prepare q) →
      i + 1 < (k.countUi m.replicaId).nextUi primary → k.lowOp (i + 1) ≠ none := by
    intro hr i q hi hlt
    by_cases hp : m.replicaId = primary
    · rw [hp, k.nextUi_countUi_self] at hlt
      rcases Nat.lt_succ_iff_lt_or_eq.mp hlt with hlt | heq
      · exact h.logged hr i q hi hlt
      · obtain ⟨j, hj, hsub⟩ := hS.stream _ m hm hp
        rw [hp, ← heq] at hj
        rw [← Nat.succ.inj hj, hi, hc] at hsub
        cases hsub
    · rw [k.nextUi_countUi_of_ne (Ne.symm hp)] at hlt
      exact h.logged hr i q hi hlt
  rcases hk with rfl | rfl
  · exact ⟨h.view, h.next_countUi hm, h.queued, hlogged, h.votes.countUi _⟩
  refine ⟨h.view, h.next_countUi hm, h.queued, hlogged, h.votes.known, h.votes.own, h.votes.paced, fun ui j hj => ?_⟩
  rcases mem_keys_count hj with hj | ⟨rfl, rfl⟩
  · exact h.votes.counted ui j hj
  have hid := hS.commit _ m c hm hc
  by_cases hown : m.replicaId = r ∨ r = primary
  · exact Or.inl (h.votes.known _ (hS.known _ m c hm hc hown))
  obtain ⟨hself, hr⟩ := not_or.mp hown
  by_cases hp : m.replicaId = primary
  · -- the Prepare for which the primary commits is before the Commit in its stream
    obtain ⟨i, hi, hsub⟩ := hS.stream _ m hm hp
    obtain ⟨j, q, hj, hlt, hq⟩ := hS.paced i c (hc ▸ hsub)
    rw [hp] at hi
    exact Or.inl (hj ▸ h.logged hr j q hq (by omega))
  · rw [hid]
    exact Or.inr ⟨hr, hp, hself, _, m, c, hm, rfl, hc, rfl, h.next m.replicaId⟩

/-- A Prepare is logged, and answered with a Commit. -/
theorem Heard.prepare (hS : Sound A L K r) (h : Heard A L K r k) (hr : r ≠ primary) {m : UIMessage} {q : Prepare}
    {lo : Nat} (hm : A (k.nextUi m.replicaId) m) (hq : m.sub = .prepare q) :
    Heard A L K r (((k.countUi m.replicaId).log (k.nextUi m.replicaId) lo).own r (k.nextUi m.replicaId)) := by
  have hp := hS.prepare _ m q hm hq
  refine ⟨h.view, h.next_countUi hm, h.queued, fun hr i q' hi hlt => ?_, ?_⟩
  · have hlt : i + 1 < (k.countUi m.replicaId).nextUi primary := hlt
    rw [hp, k.nextUi_countUi_self] at hlt
    rcases Nat.lt_succ_iff_lt_or_eq.mp hlt with hlt | heq
    · exact Control.lowOp_log (k := k.countUi m.replicaId) lo (h.logged hr i q' hi hlt)
    · rw [heq, hp]
      exact Control.lowOp_log_self _ _ lo
  · exact ((h.votes.countUi _).log _ lo).sendOwn (Control.lowOp_log_self _ _ lo) fun h0 => (hr h0).elim

/-! ### What the handlers keep -/

theorem handleUi_heard (hS : Sound A L K r) (hE : E.replicaIdx = r) (h : Heard A L K r s.control) {m : UIMessage}
    (hm : A (s.nextUi m.replicaId) m) :
    Sat (handleUi E (s.nextUi m.replicaId) m.sub) (s.countUi m.replicaId)
      (fun _ s' _ => Heard A L K r s'.control) fun s' _ => Votes A K r s'.control := by
  cases hsub : m.sub with
  | commit c =>
    exact (handleCommit_leaves c _).mono (fun _ _ _ hk => h.commit hS hm hsub hk) fun _ _ hk =>
      (h.commit hS hm hsub hk).votes
  | prepare q =>
    have haccept {s' : Replica} (hk : Accepted E (s.nextUi m.replicaId) (s.countUi m.replicaId).control s'.control) :
        Heard A L K r s'.control := by
      obtain ⟨hno, lo, hk⟩ := hk
      have hview : (s.countUi m.replicaId).control.viewNumber = 0 := h.view
      rw [hview, getLeaderIndex_zero, hE] at hno
      rw [hk, hE]
      exact h.prepare hS (Ne.symm hno) hm hsub
    refine (handlePrepare_leaves q _ _).mono (fun _ s' _ hk => ?_) fun s' _ hk => ?_
    · rcases hk with ⟨hlt, -⟩ | hk
      · rw [show (s.countUi m.replicaId).viewNumber = 0 from h.view] at hlt
        exact (Nat.not_lt_zero _ hlt).elim
      · exact haccept hk
    · rcases hk with hk | hk
      · rw [hk]
        exact h.votes.countUi _
      · exact (haccept hk).votes

/-- What waits of a sender changes. -/
theorem Heard.setQueue (h : Heard A L K r s.control) {i : Nat} {queue : StdMap Nat UIMessage}
    (hqueue : ∀ x ∈ queue.toList, A x.1 x.2 ∧ x.2.replicaId = i) : Heard A L K r (s.setQueue i queue).control := by
  refine ⟨h.view, h.next, fun j x hx => ?_, h.logged, h.votes.known, h.votes.own, h.votes.paced, h.votes.counted⟩
  have hx : x ∈ ((s.setQueue i queue).uiQueue j).toList := hx
  by_cases hj : j = i
  · subst hj
    rw [s.uiQueue_setQueue_self] at hx
    exact hqueue x hx
  · rw [s.uiQueue_setQueue_of_ne queue hj] at hx
    exact h.queued j x hx

theorem drainQueue_heard (hS : Sound A L K r) (hE : E.replicaIdx = r) {i : Nat} : ∀ (n : Nat) {s : Replica},
    Heard A L K r s.control →
    Sat (drainQueue E i n) s (fun _ s' _ => Heard A L K r s'.control) fun s' _ => Votes A K r s'.control
  | 0, _, h => h
  | n + 1, s, h => by
      simp only [drainQueue, sat_bind, sat_get]
      cases hq : (s.uiQueue i).toList with
      | nil => exact h
      | cons x rest =>
        obtain ⟨ui, m⟩ := x
        obtain ⟨hm, hid⟩ : A ui m ∧ m.replicaId = i := h.queued i (ui, m) (hq ▸ List.mem_cons_self ..)
        subst hid
        simp only [sat_ite, sat_pure, sat_bind, sat_modify]
        refine ⟨fun _ => h, fun hui => ?_⟩
        obtain rfl := not_not.mp hui
        refine (handleUi_heard hS hE h hm).mono (fun _ s₁ _ h₁ => ?_) fun _ _ h => h
        refine drainQueue_heard hS hE n (h₁.setQueue fun x hx => ?_)
        exact h₁.queued _ x (List.mem_filter.mp hx).1

theorem receiveMessage_heard (hS : Sound A L K r) (hE : E.replicaIdx = r) (h : Heard A L K r s.control) (a : Addr)
    {m : Message} (hm : ∀ ui u, m = .uiMessage ui u → A ui u) :
    Sat (receiveMessage E a m) s (fun _ s' _ => Heard A L K r s'.control) fun s' _ => Votes A K r s'.control := by
  cases m with
  | signedRequest req =>
    have hkept {k : Control} (hk : Requested E s.control k) : Heard A L K r k := by
      rcases hk with rfl | ⟨-, hk⟩
      · exact h
      · exact h.closed (hE ▸ hk)
    exact (handleRequest_leaves a req s).mono (fun _ _ _ hk => hkept hk) fun _ _ hk => (hkept hk).votes
  | uiMessage ui u =>
    have hu := hm ui u rfl
    simp only [receiveMessage, receiveUi, sat_bind, sat_get, sat_ite, sat_modify]
    refine ⟨fun _ => h.setQueue fun x hx => ?_, fun hui => ?_⟩
    · rcases StdMap.mem_insert hx with rfl | hx
      · exact ⟨hu, rfl⟩
      · exact h.queued _ x hx
    · obtain rfl := not_not.mp hui
      refine (handleUi_heard hS hE h hu).mono (fun _ s₁ _ h₁ => ?_) fun _ _ h => h
      refine (drainQueue_heard hS hE _ h₁).mono (fun _ s₂ _ h₂ => ?_) fun _ _ h => h
      refine (steady_concludeEpilogue s₂).mono (fun _ s₃ _ h₃ => ?_) fun s₃ _ h₃ => ?_
      · rw [show s₃.control = s₂.control from h₃]
        exact h₂
      · rw [show s₃.control = s₂.control from h₃]
        exact h₂.votes

end Hearing

/-! ### Runs -/

variable {G : Group} {A A' : Nat → UIMessage → Prop} {L L' : List UISub} {K K' : Nat → Prop} {r : Nat} {k : Control}

theorem Votes.later (h : Votes A K r k) (hA : ∀ ui m, A ui m → A' ui m) (hK : ∀ ui, K' ui → k.lowOp ui ≠ none) :
    Votes A' K' r k := by
  refine ⟨hK, h.own, h.paced, fun ui j hj => (h.counted ui j hj).imp_right ?_⟩
  rintro ⟨hr, hp, hself, v, m, c, hm, hid, hc, hui, hall⟩
  refine ⟨hr, hp, hself, v, m, c, hA v m hm, hid, hc, hui, fun i h1 hi => ?_⟩
  obtain ⟨m', hm', hid'⟩ := hall i h1 hi
  exact ⟨m', hA i m' hm', hid'⟩

/-- More has arrived, and the primary has sent more. -/
theorem Heard.later (h : Heard A L K r k) (hA : ∀ ui m, A ui m → A' ui m) (hL : L <+: L')
    (hstream : ∀ ui m, A ui m → m.replicaId = primary → ∃ i, ui = i + 1 ∧ L[i]? = some m.sub)
    (hK : ∀ ui, K' ui → k.lowOp ui ≠ none) : Heard A' L' K' r k := by
  refine ⟨h.view, fun i j h1 hj => ?_, fun i x hx => ?_, fun hr i m hi hlt => ?_, h.votes.later hA hK⟩
  · obtain ⟨m, hm, hid⟩ := h.next i j h1 hj
    exact ⟨m, hA j m hm, hid⟩
  · exact ⟨hA _ _ (h.queued i x hx).1, (h.queued i x hx).2⟩
  · obtain ⟨m', hm', hid⟩ := h.next primary (i + 1) (Nat.le_add_left ..) hlt
    obtain ⟨j, hj, hsub⟩ := hstream _ m' hm' hid
    obtain rfl := Nat.succ.inj hj
    have hsame := (getElem?_mono hL hsub).symm.trans hi
    exact h.logged hr i m (hsub.trans hsame) hlt

/-- The UI message has arrived at replica `r`. -/
def Came (G : Group) (x : Sys × List Event) (r ui : Nat) (m : UIMessage) : Prop :=
  Net.Arrived G.protocol x r (.uiMessage ui m)

/-- The replica has the batch with this UI. -/
def Replica.Has (s : Replica) (ui : Nat) : Prop := s.lowOp ui ≠ none

/-- What the replicas have heard. -/
structure Hearing (G : Group) (x : Sys × List Event) : Prop where
  heard : ∀ r < G.config.n, x.1.stopped r = false →
    Heard (Came G x r) (x.1.replica primary).sent (x.1.replica r).Has r (x.1.replica r).control
  votes : ∀ r < G.config.n, Votes (Came G x r) (x.1.replica r).Has r (x.1.replica r).control

/-- What an event brings, or has brought, is good. -/
theorem good_of_brings {γ : Streams} {s : Sys} (h : (sequence G).Holds G.config.n γ s) {ui : Nat} {m : UIMessage}
    {e : Event} (hb : Net.Brings G.protocol s r (.uiMessage ui m) e) : GoodUi G γ ui m := by
  cases e with
  | client r' c req => cases hb.2
  | timeout r' t => exact hb.elim
  | deliver i =>
    obtain ⟨p, hp, -, hm⟩ := hb
    exact h.packet p (List.mem_of_getElem? hp) ui m hm

/-- The streams are what the replicas have sent, so what has come is as it should be. -/
theorem Hearing.sound {γ : Streams} {x : Sys × List Event} (h : Hearing G x)
    (hγ : (sequence G).Holds G.config.n γ x.1) (hr : r < G.config.n) (hA : ∀ ui m, A ui m → GoodUi G γ ui m) :
    Sound A (x.1.replica primary).sent (x.1.replica r).Has r := by
  have h0 : primary < G.config.n := Nat.zero_lt_of_lt hr
  have hsent : ∀ i < G.config.n, γ i = (x.1.replica i).sent := fun i hi => by
    obtain ⟨l, t, hcore⟩ := core_of_holds hγ hi
    exact hcore.sent
  have hrange : ∀ i < G.config.n, ∀ ui, (x.1.replica i).Has ui → ∃ lo hi, rangeOf (γ primary) ui = some (lo, hi) := by
    intro i hi ui hui
    obtain ⟨l, t, hcore⟩ := core_of_holds hγ hi
    rw [Replica.Has, hcore.follows.low] at hui
    obtain ⟨⟨lo, hi⟩, hx⟩ := Option.ne_none_iff_exists'.mp fun hno => hui (congrArg (Option.map Prod.fst) hno)
    exact ⟨lo, hi, rangeOf_mono hcore.follows.stream hx⟩
  refine ⟨fun ui m hm hp => ?_, fun ui m q hm hq => ((hA ui m hm).prepare q hq).1, fun ui m c hm => (hA ui m hm).commit c,
    fun i c hc => ?_, fun ui m c hm hc hown => ?_⟩
  · rw [← hsent primary h0, ← hp]
    exact (hA ui m hm).sent
  · obtain ⟨lo, hi, hx⟩ := hrange primary h0 _ ((h.votes primary h0).own c (List.mem_of_getElem? hc))
    obtain ⟨j, m, hj, hm, -⟩ := rangeOf_eq_some.mp hx
    have hle := ((h.votes primary h0).paced rfl).2 i c hc
    rw [hsent primary h0] at hm
    exact ⟨j, m, hj, by omega, hm⟩
  · have hgood := hA ui m hm
    obtain ⟨i, -, hi⟩ := hgood.sent
    rw [hsent _ hgood.lt, hc] at hi
    have hhas := (h.votes _ hgood.lt).own c (List.mem_of_getElem? hi)
    rcases hown with hid | rfl
    · rwa [hid] at hhas
    · obtain ⟨lo, hi, hx⟩ := hrange _ hgood.lt _ hhas
      obtain ⟨l, t, hcore⟩ := core_of_holds hγ h0
      rw [← hcore.follows.leads rfl] at hx
      have hlow : (x.1.replica primary).lowOp c.primaryUi = some lo := by
        rw [hcore.follows.low]
        exact congrArg (Option.map Prod.fst) hx
      exact fun hno => by cases hlow.symm.trans hno

/-- A replica only ever sends more. -/
theorem sent_grows {s s' : Sys} {e : Event} (hst : s.step G.protocol e = some s') (i : Nat) :
    (s.replica i).sent <+: (s'.replica i).sent := by
  obtain ⟨r, m, hm, -, -, rfl⟩ := Net.Sys.step_eq_some hst
  by_cases hi : i = r
  · subst hi
    have hrecorded : Recorded m := by
      rcases Net.brings_of_handler hm with ⟨a, msg, rfl, -⟩ | ⟨_, -, rfl, -⟩
      · exact recorded_receiveMessage a msg
      · exact recorded_closeBatch
    have hsent : (s.replica i).sent <+: (m (s.replica i)).2.1.sent :=
      state_of_sat (I := fun t : Replica => (s.replica i).sent <+: t.sent) <|
        (hrecorded (s.replica i)).mono (fun _ _ _ h => h ▸ List.prefix_append ..) fun _ _ h => h ▸ List.prefix_append ..
    simpa [Net.Sys.after] using hsent
  · simp [Net.Sys.after, hi]

/-- One step. -/
theorem Hearing.next {C : Sys × List Event → Event → Prop} {past : List (Sys × List Event)} {x y : Sys × List Event}
    {e : Event} (h : Hearing G x) (hr : Run G.system.recorded C past x) (hst : G.system.recorded.step x e = some y) :
    Hearing G y ∧ ∀ i < G.config.n, ∀ ui, (x.1.replica i).Has ui → (y.1.replica i).Has ui := by
  obtain ⟨γ, hγ⟩ := holds_of_run hr.of_recorded
  have hs := (System.recorded_step_eq_some.mp hst).1
  obtain ⟨r, m, hm, hrn, hlive, hafter⟩ := Net.Sys.step_eq_some hs
  have hself : y.1.replica r = (m (x.1.replica r)).2.1 := by simp [hafter, Net.Sys.after]
  have hother : ∀ i, i ≠ r → y.1.replica i = x.1.replica i := fun i hi => by simp [hafter, Net.Sys.after, hi]
  have hcame : ∀ i ui u, Came G y i ui u ↔ Net.Brings G.protocol x.1 i (.uiMessage ui u) e ∨ Came G x i ui u :=
    fun i ui u => Net.arrived_iff hr hst
  have hgood : ∀ i ui u, Came G y i ui u → GoodUi G γ ui u := by
    intro i ui u hu
    rcases (hcame i ui u).mp hu with hb | ⟨e', -, hb⟩
    · exact good_of_brings hγ hb
    · exact good_of_brings hγ hb
  have hlater : ∀ i ui u, Came G x i ui u → Came G y i ui u := fun i ui u hu => (hcame i ui u).mpr (Or.inr hu)
  have hsound : ∀ i < G.config.n, Sound (Came G y i) (x.1.replica primary).sent (x.1.replica i).Has i :=
    fun i hi => h.sound hγ hi (hgood i)
  have hstep : Votes (Came G y r) (x.1.replica r).Has r (y.1.replica r).control ∧ (y.1.stopped r = false →
      Heard (Came G y r) (x.1.replica primary).sent (x.1.replica r).Has r (y.1.replica r).control) := by
    have hheard := (h.heard r hrn hlive).later (hlater r) List.prefix_rfl
      (fun ui u hu => (hsound r hrn).stream ui u (hlater r ui u hu)) fun _ hk => hk
    have hsat : Sat m (x.1.replica r)
        (fun _ s' _ => Heard (Came G y r) (x.1.replica primary).sent (x.1.replica r).Has r s'.control)
        fun s' _ => Votes (Came G y r) (x.1.replica r).Has r s'.control := by
      rcases Net.brings_of_handler hm with ⟨a, msg, rfl, hb⟩ | ⟨_, -, rfl, -⟩
      · refine receiveMessage_heard (hsound r hrn) rfl hheard a fun ui u hu => ?_
        exact (hcame r ui u).mpr (Or.inl ((hb r _).mpr ⟨rfl, hu.symm⟩))
      · exact (closeBatch_leaves _).mono (fun _ _ _ hk => hheard.closed hk) fun _ _ hk => (hheard.closed hk).votes
    rw [hself]
    rcases hsat.cases with ⟨u, s', o, hrun, hs'⟩ | ⟨s', o, hrun, hs'⟩
    · rw [hrun]
      exact ⟨hs'.votes, fun _ => hs'⟩
    · rw [hrun]
      exact ⟨hs', fun hno => by simp [hafter, Net.Sys.after, hrun] at hno⟩
  refine ⟨⟨fun i hi hlive' => ?_, fun i hi => ?_⟩, fun i hi ui hui => ?_⟩
  · by_cases hir : i = r
    · subst hir
      exact (hstep.2 hlive').later (fun _ _ hu => hu) (sent_grows hs primary) (hsound i hi).stream fun _ hk => hk
    · have hlive : x.1.stopped i = false := by simpa [hafter, Net.Sys.after, hir] using hlive'
      rw [hother i hir]
      exact (h.heard i hi hlive).later (hlater i) (sent_grows hs primary)
        (fun ui u hu => (hsound i hi).stream ui u (hlater i ui u hu)) fun _ hk => hk
  · by_cases hir : i = r
    · subst hir
      exact hstep.1.later (fun _ _ hu => hu) fun _ hk => hk
    · rw [hother i hir]
      exact (h.votes i hi).later (hlater i) fun _ hk => hk
  · by_cases hir : i = r
    · subst hir
      exact hstep.1.known ui hui
    · rw [hother i hir]
      exact hui

theorem hearing_of_run {C : Sys × List Event → Event → Prop} {past : List (Sys × List Event)} {x : Sys × List Event}
    (hr : Run G.system.recorded C past x) : Hearing G x := by
  refine hr.invariant (I := fun _ x => Hearing G x) ?_ fun _ _ _ _ hr h _ hst => (h.next hr hst).1
  have hvotes : ∀ i, Votes (Came G G.system.recorded.init i) (G.system.recorded.init.1.replica i).Has i
      (Replica.initial (G.env i)).control := fun i => ⟨fun _ hk => hk, (fun _ hc => by cases hc),
    fun _ => ⟨rfl, fun _ _ hc => by cases hc⟩, fun ui j hj => by
      obtain ⟨m, hm⟩ := StdMap.mem_keys.mp hj
      cases hm⟩
  refine ⟨fun i _ _ => ⟨rfl, fun j v h1 hv => ?_, (fun _ _ hx => by cases hx), (fun _ _ _ hv => by cases hv),
    hvotes i⟩, fun i _ => hvotes i⟩
  have hv : v < if j < G.config.n then 1 else 0 := hv
  split_ifs at hv <;> omega

/-- Every quorum is for a batch that the replica has. In `AddCommit` the process ends when it is not. -/
def Replica.QuorumsLogged (f : Nat) (s : Replica) : Prop :=
  ∀ ui, f + 1 ≤ (s.commitQuorum.messages ui).size → s.Has ui

/-- For a batch that a replica has not logged, the Commits of at most `f` other backups have come, each with everything
    that its sender sent before it. -/
def FewAhead (G : Group) (x : Sys × List Event) (e : Event) : Prop :=
  ∀ r < G.config.n, ∀ ui, ¬ (x.1.replica r).Has ui → ∀ Q : Finset Nat, (∀ j ∈ Q, j ≠ primary ∧ j ≠ r ∧
    Vote (fun v m => Net.Brings G.protocol x.1 r (.uiMessage v m) e ∨ Came G x r v m) ui j) → Q.card ≤ G.config.f

/-- In every run in which the Commits come in order, every quorum is for a batch that is logged. -/
theorem quorumsLogged_of_run {past : List (Sys × List Event)} {x : Sys × List Event}
    (hr : Run G.system.recorded (FewAhead G) past x) : ∀ r < G.config.n, (x.1.replica r).QuorumsLogged G.config.f := by
  cases hr with
  | start =>
    intro r _ ui hsize
    cases hsize
  | @next past w x e hrw hc hst =>
    obtain ⟨h, hmono⟩ := (hearing_of_run hrw).next hrw hst
    intro r hrn ui hsize
    by_contra hno
    have hcame : ∀ v m, Came G x r v m ↔ Net.Brings G.protocol w.1 r (.uiMessage v m) e ∨ Came G w r v m :=
      fun v m => Net.arrived_iff hrw hst
    have hothers : ∀ j ∈ ((x.1.replica r).commitQuorum.messages ui).keys, j ≠ primary ∧ j ≠ r ∧
        Vote (fun v m => Net.Brings G.protocol w.1 r (.uiMessage v m) e ∨ Came G w r v m) ui j := by
      intro j hj
      obtain ⟨-, hp, hself, v, m, c, hm, hid, hc, hui, hall⟩ := ((h.votes r hrn).counted ui j hj).resolve_left hno
      refine ⟨hp, hself, v, m, c, (hcame v m).mp hm, hid, hc, hui, fun i h1 hi => ?_⟩
      obtain ⟨m', hm', hid'⟩ := hall i h1 hi
      exact ⟨m', (hcame i m').mp hm', hid'⟩
    have hcard := hc r hrn ui (fun hhas => hno (hmono r hrn ui hhas)) _ hothers
    rw [StdMap.card_keys] at hcard
    omega

/-- With three replicas, of which one may be faulty, no order of messages leads to a quorum for a batch that is not
    logged: there is only one other backup. -/
theorem quorumsLogged_of_three (hn : G.config.n = 2 * G.config.f + 1) (hf : G.config.f ≤ 1) {C : Sys → Event → Prop}
    {past : List Sys} {s : Sys} (hr : Run G.system C past s) :
    ∀ r < G.config.n, (s.replica r).QuorumsLogged G.config.f := by
  intro r hrn ui hsize
  by_contra hno
  obtain ⟨past', es, hrec⟩ := hr.record
  obtain ⟨γ, hγ⟩ := holds_of_run hr
  obtain ⟨l, t, hcore⟩ := core_of_holds hγ hrn
  have hothers : ∀ j ∈ ((s.replica r).commitQuorum.messages ui).keys, r ≠ primary ∧ j ≠ primary ∧ j ≠ r := by
    intro j hj
    obtain ⟨hr0, hp, hself, -⟩ := (((hearing_of_run hrec).votes r hrn).counted ui j hj).resolve_left hno
    exact ⟨hr0, hp, hself⟩
  have hlt : ∀ j ∈ ((s.replica r).commitQuorum.messages ui).keys, j < G.config.n := by
    intro j hj
    obtain ⟨m, hm⟩ := StdMap.mem_keys.mp hj
    exact (hcore.counts.counted ui _ hm).1
  rw [← StdMap.card_keys] at hsize
  obtain ⟨j, hj⟩ := Finset.card_pos.mp (Nat.lt_of_lt_of_le (Nat.succ_pos _) hsize)
  have hr0 := (hothers j hj).1
  have hsub : insert primary (insert r ((s.replica r).commitQuorum.messages ui).keys) ⊆ Finset.range G.config.n := by
    intro i hi
    rcases Finset.mem_insert.mp hi with rfl | hi
    · exact Finset.mem_range.mpr (Nat.zero_lt_of_lt hrn)
    · rcases Finset.mem_insert.mp hi with rfl | hi
      · exact Finset.mem_range.mpr hrn
      · exact Finset.mem_range.mpr (hlt i hi)
  have hcard := Finset.card_le_card hsub
  rw [Finset.card_range, Finset.card_insert_of_notMem, Finset.card_insert_of_notMem] at hcard
  · omega
  · exact fun hi => (hothers r hi).2.2 rfl
  · intro hi
    rcases Finset.mem_insert.mp hi with hi | hi
    · exact hr0 hi.symm
    · exact (hothers primary hi).2.1 rfl

end Dsnet.MinBFT
