import Dsnet.Lib.Frame
import Dsnet.VR.System
import Dsnet.VR.Effects

/-! The two quorum sets of a view change. `HandleStartViewChange` fills the one, `HandleDoViewChange` the other
    and, once that is complete, takes the least commit point of the first without asking whether there is
    any message in it. There is one if a StartViewChange of the view has reached the replica before. -/

namespace Dsnet.VR
open Handler

variable {E : Env} {s s' : Replica}

/-! ### Through the views -/

/-- A replica that recovers has not been in any view yet. -/
def Unviewed (s : Replica) : Prop := s.status = .recovering → s.view = 0

/-- The StartViewChange messages of view `v` that the replica counts. -/
def startedBy (s : Replica) (v : Nat) : List (Nat × StartViewChangeMessage) :=
  (s.startViewChangeQuorum.messages v).toList

/-- A replica goes on to later views. In one and the same view it may end the view change, but as long as
    it has not, it goes on counting the messages it has counted. -/
def Forward (s s' : Replica) : Prop :=
  Unviewed s → Unviewed s' ∧ (s.view < s'.view ∨ (s'.view = s.view ∧ (s'.status ≠ .viewChange ∨
    (s.status = .viewChange ∧ ∀ v, startedBy s v ≠ [] → startedBy s' v ≠ []))))

instance : Std.Refl Forward where
  refl s hs := by
    by_cases h : s.status = .viewChange
    · exact ⟨hs, Or.inr ⟨rfl, Or.inr ⟨h, fun _ hv => hv⟩⟩⟩
    · exact ⟨hs, Or.inr ⟨rfl, Or.inl h⟩⟩

instance : IsTrans Replica Forward where
  trans s s' s'' h h' hs := by
    obtain ⟨hs', h⟩ := h hs
    obtain ⟨hs'', h'⟩ := h' hs'
    refine ⟨hs'', ?_⟩
    rcases h with hlt | ⟨heq, h⟩ <;> rcases h' with hlt' | ⟨heq', h'⟩
    · exact Or.inl (by omega)
    · exact Or.inl (by omega)
    · exact Or.inl (by omega)
    · refine Or.inr ⟨heq'.trans heq, ?_⟩
      rcases h' with h' | ⟨hst', h'⟩
      · exact Or.inl h'
      · rcases h with h | ⟨hst, h⟩
        · exact absurd hst' h
        · exact Or.inr ⟨hst, fun v hv => h' v (h v hv)⟩

/-- A StartViewChange of view `v` has come, and is counted unless it is of no use any more. -/
def Heard (s : Replica) (v : Nat) : Prop :=
  v < s.view ∨ (v = s.view ∧ (s.status ≠ .viewChange ∨ startedBy s v ≠ []))

theorem Forward.heard (h : Forward s s') (hs : Unviewed s) {v : Nat} (hv : Heard s v) : Heard s' v := by
  obtain ⟨-, hlt | ⟨heq, h⟩⟩ := h hs
  · refine Or.inl ?_
    rcases hv with hv | ⟨hv, -⟩ <;> omega
  · rcases hv with hv | ⟨hv, hn⟩
    · exact Or.inl (by omega)
    · refine Or.inr ⟨by omega, ?_⟩
      rcases h with h | ⟨hst, h⟩
      · exact Or.inl h
      · exact Or.inr (h v (hn.resolve_left (not_not_intro hst)))

/-! ### Every handler goes forward -/

/-- The members that the sets depend on. -/
def Replica.stage (s : Replica) : Nat × ReplicaStatus × QuorumSet Nat StartViewChangeMessage :=
  (s.view, s.status, s.startViewChangeQuorum)

/-- The view and its state are as before. -/
abbrev Stays (s s' : Replica) : Prop := Same Replica.stage s s'

theorem Stays.forward (h : Stays s s') : Forward s s' := by
  intro hs
  obtain ⟨hview, hstatus, hq⟩ : s'.view = s.view ∧ s'.status = s.status ∧
      s'.startViewChangeQuorum = s.startViewChangeQuorum := by
    simpa [Same, Replica.stage] using h
  refine ⟨fun h => by rw [hview]; exact hs (hstatus ▸ h), Or.inr ⟨hview, ?_⟩⟩
  by_cases hst : s.status = .viewChange
  · refine Or.inr ⟨hst, fun v hv => ?_⟩
    rwa [startedBy, hq]
  · exact Or.inl (by rwa [hstatus])

theorem relates_forward {α : Type} {m : VRHandler α} (hm : Relates Stays m) : Relates Forward m :=
  hm.mono fun _ _ => Stays.forward

theorem stays_modify {g : Replica → Replica} (h : ∀ s, (g s).stage = s.stage) :
    Relates Stays (modify g : VRHandler Unit) := relates_modify h

theorem stays_commitUpTo (upto : Nat) : Relates Stays (commitUpTo E upto) := fun s =>
  sat_commitUpTo.mono (fun _ _ _ h => by
    obtain ⟨_, _, _, _, rfl⟩ := h.1.frame
    rfl) fun _ _ _ => trivial

theorem stays_updateClientTable (req : Request) : Relates Stays (updateClientTable req) :=
  relates_get.bind fun _ => relates_assert.bind fun _ => stays_modify fun _ => rfl

theorem stays_sendPrepareOK (i : Nat) : Relates Stays (sendPrepareOK E i) :=
  relates_get.bind fun _ => .ite relates_pure <| relates_ofOption.bind fun _ => relates_assert.bind fun _ =>
    (stays_updateClientTable _).bind fun _ => relates_emit

theorem stays_sendPrepareOKs (old : Nat) : Relates Stays (sendPrepareOKs E old) :=
  relates_get.bind fun _ => .forEach stays_sendPrepareOK _

theorem stays_requestStateTransfer : Relates Stays requestStateTransfer :=
  relates_get.bind fun _ => .ite relates_pure <| .bind (stays_modify fun _ => rfl) fun _ => relates_emit

theorem stays_closeBatch : Relates Stays (closeBatch E) :=
  relates_get.bind fun _ => relates_assert.bind fun _ => relates_assert.bind fun _ =>
    relates_ofOption.bind fun _ => .bind (stays_modify fun _ => rfl) fun _ => relates_emit.bind fun _ =>
      .bind (stays_modify fun _ => rfl) fun _ => stays_modify fun _ => rfl

theorem stays_processRequest (remote : Addr) (req : Request) : Relates Stays (processRequest E remote req) := by
  refine relates_get.bind fun s => ?_
  rcases E.app.leaderUpcall s.upcalls s.lastCommitted req.op with ⟨replicate, res⟩
  refine .bind (stays_modify fun _ => rfl) fun _ => .ite ?_ ?_
  · exact .bind (stays_modify fun _ => rfl) fun _ => relates_emit
  · exact .bind (stays_modify fun _ => rfl) fun _ => relates_get.bind fun _ => relates_ofOption.bind fun _ =>
      .bind (stays_modify fun _ => rfl) fun _ =>
        .ite (stays_closeBatch.bind fun _ => stays_modify fun _ => rfl)
          (.bind (stays_modify fun _ => rfl) fun _ => stays_modify fun _ => rfl)

theorem stays_handleRequest (remote : Addr) (req : Request) : Relates Stays (handleRequest E remote req) := by
  refine relates_get.bind fun s => .ite relates_pure <| .ite relates_pure <|
    .bind (stays_modify fun _ => rfl) fun _ => ?_
  cases checkDuplicate s req with
  | stale => exact relates_pure
  | replied reply => exact .whenSome fun _ => relates_emit
  | unreplied => exact relates_pure
  | fresh => exact (stays_updateClientTable req).bind fun _ => stays_processRequest remote req

theorem stays_handleUnloggedRequest (remote : Addr) (op : String) :
    Relates Stays (handleUnloggedRequest E remote op) :=
  relates_get.bind fun _ => .ite relates_pure <| .bind (stays_modify fun _ => rfl) fun _ => relates_emit

theorem stays_appendPrepared (view op : Nat) (req : Request) : Relates Stays (appendPrepared view op req) :=
  relates_get.bind fun _ => .ite relates_pure <| .bind (stays_modify fun _ => rfl) fun _ =>
    relates_ofOption.bind fun _ => .bind (stays_modify fun _ => rfl) fun _ => stays_updateClientTable req

theorem stays_handlePrepare (remote : Addr) (msg : PrepareMessage) :
    Relates Stays (handlePrepare E remote msg) :=
  relates_get.bind fun _ => .ite relates_pure <| .ite relates_pure <|
    .ite (stays_requestStateTransfer.bind fun _ => stays_modify fun _ => rfl) <|
    relates_assert.bind fun _ => relates_assert.bind fun _ => relates_assert.bind fun _ =>
    .bind (stays_modify fun _ => rfl) fun _ => .ite relates_emit <|
    .ite (stays_requestStateTransfer.bind fun _ => stays_modify fun _ => rfl) <|
    (Relates.forEach (fun _ => stays_appendPrepared _ _ _) _).bind fun _ => relates_assert.bind fun _ =>
    relates_emit

theorem stays_handlePrepareOK (msg : PrepareOKMessage) : Relates Stays (handlePrepareOK E msg) :=
  relates_get.bind fun _ => .ite relates_pure <| .ite relates_pure <| .ite stays_requestStateTransfer <|
    .when <| .bind (stays_modify fun _ => rfl) fun _ => .whenSome fun _ => (stays_commitUpTo _).bind fun _ =>
    .ite relates_pure <| relates_get.bind fun _ => relates_emit.bind fun _ =>
    .bind (stays_modify fun _ => rfl) fun _ => .when <| .bind (stays_modify fun _ => rfl) fun _ =>
    .when stays_closeBatch

theorem stays_handleCommit (msg : CommitMessage) : Relates Stays (handleCommit E msg) :=
  relates_get.bind fun _ => .ite relates_pure <| .ite relates_pure <| .ite stays_requestStateTransfer <|
    relates_assert.bind fun _ => .bind (stays_modify fun _ => rfl) fun _ => .ite relates_pure <|
    .ite stays_requestStateTransfer (stays_commitUpTo _)

theorem stays_handleRequestStateTransfer (remote : Addr) (msg : RequestStateTransferMessage) :
    Relates Stays (handleRequestStateTransfer remote msg) :=
  relates_get.bind fun _ => .ite relates_pure <| .ite stays_requestStateTransfer relates_emit

theorem stays_installTransferred : ∀ (es : List LogEntry) (old : Nat), Relates Stays (installTransferred es old)
  | [], _ => relates_pure
  | e :: es, old => by
      unfold installTransferred
      exact relates_get.bind fun _ => .ite (stays_installTransferred es old) <|
        .ite (relates_ofOption.bind fun _ => relates_assert.bind fun _ =>
          .ite (relates_assert.bind fun _ => stays_installTransferred es old) <|
          relates_assert.bind fun _ => relates_ofOption.bind fun _ => .bind (stays_modify fun _ => rfl) fun _ =>
          relates_ofOption.bind fun _ => .bind (stays_modify fun _ => rfl) fun _ =>
          stays_installTransferred es _) <|
        relates_assert.bind fun _ => .bind (stays_modify fun _ => rfl) fun _ => relates_ofOption.bind fun _ =>
        .bind (stays_modify fun _ => rfl) fun _ => stays_installTransferred es old

theorem stays_resumeTransferred (opnum old : Nat) : Relates Stays (resumeTransferred E opnum old) :=
  relates_get.bind fun _ => relates_assert.bind fun _ => (stays_commitUpTo _).bind fun _ =>
    (stays_sendPrepareOKs _).bind fun _ => relates_get.bind fun _ => .bind (stays_modify fun _ => rfl) fun _ =>
    .forEach (fun _ => stays_handlePrepare _ _) _

theorem Stays.view (h : Stays s s') : s'.view = s.view := congrArg Prod.fst h

/-- A later view is entered, or the view change of the current one ends. -/
theorem forward_entered {v : Nat} (hv : s.view ≤ v) : Forward s (entered E s v) := by
  intro _
  refine ⟨fun h => by simp [entered] at h, ?_⟩
  rcases Nat.lt_or_eq_of_le hv with hlt | rfl
  · exact Or.inl hlt
  · exact Or.inr ⟨rfl, Or.inl (by simp [entered])⟩

theorem forward_changing {v : Nat} (hv : s.view < v) : Forward s (changing s v) :=
  fun _ => ⟨fun h => by simp [changing] at h, Or.inl hv⟩

/-- What comes after a handler that has gone forward. -/
theorem Forward.then {α : Type} {m : VRHandler α} (h : Forward s s') (hm : Relates Forward m) :
    Sat m s' (fun _ s'' _ => Forward s s'') fun _ _ => True :=
  (hm s').mono (fun _ s'' _ h' => IsTrans.trans (r := Forward) s s' s'' h h') fun _ _ h => h

theorem forward_handleStateTransfer (msg : StateTransferMessage) :
    Relates Forward (handleStateTransfer E msg) := by
  refine relates_get_bind fun s => sat_ite.mpr ⟨fun _ => Std.Refl.refl (r := Forward) s, fun hge => ?_⟩
  refine sat_bind.mpr ((stays_installTransferred msg.entries s.lastOp s).mono (fun old s₁ _ h₁ => ?_)
    fun _ _ h => h)
  have hresume := relates_forward (stays_resumeTransferred (E := E) msg.opnum old)
  simp only [sat_bind, sat_when, sat_enterView]
  refine ⟨fun hgt => ?_, fun _ => h₁.forward.then hresume⟩
  have hent : Forward s₁ (entered E s₁ msg.view) := forward_entered (by rw [h₁.view]; omega)
  exact Forward.then (IsTrans.trans (r := Forward) _ _ _ h₁.forward hent) hresume

/-- The first steps of the two handlers of the view change. -/
theorem forward_join {v : Nat} (hheeds : Heeds s v) :
    Sat (when (s.status ≠ .viewChange ∨ v > s.view) (startViewChange E v)) s
      (fun _ s' _ => Forward s s' ∧ s'.view = v ∧ s'.status = .viewChange ∧
        s'.startViewChangeQuorum = s.startViewChangeQuorum) fun _ _ => True := by
  obtain ⟨hge, hin⟩ := hheeds
  simp only [sat_when, sat_startViewChange]
  refine ⟨fun h => ?_, fun h => ?_⟩
  · have hlt : s.view < v := by
      rcases h with h | h
      · rcases Nat.lt_or_eq_of_le (Nat.le_of_not_lt hge) with hlt | heq
        · exact hlt
        · exact absurd ⟨heq.symm, h⟩ hin
      · exact h
    exact ⟨forward_changing hlt, rfl, rfl, rfl⟩
  · rw [not_or, not_not] at h
    exact ⟨Std.Refl.refl (r := Forward) s, by omega, h.1, trivial⟩

/-- The replica has counted a StartViewChange. -/
def counting (s : Replica) (msg : StartViewChangeMessage) : Replica :=
  { s with startViewChangeQuorum := s.startViewChangeQuorum.add msg.view msg.replicaidx msg }

theorem startedBy_counting_self (s : Replica) (msg : StartViewChangeMessage) :
    startedBy (counting s msg) msg.view ≠ [] := by
  rw [startedBy, counting, QuorumSet.messages_add_self]
  exact List.ne_nil_of_mem (StdMap.mem_insert_self ..)

theorem forward_counting (s : Replica) (msg : StartViewChangeMessage) : Forward s (counting s msg) := by
  intro hs
  refine ⟨hs, Or.inr ⟨rfl, ?_⟩⟩
  by_cases hst : s.status = .viewChange
  · refine Or.inr ⟨hst, fun v hv => ?_⟩
    by_cases heq : v = msg.view
    · subst heq
      exact startedBy_counting_self s msg
    · simpa [startedBy, counting, QuorumSet.add, heq] using hv
  · exact Or.inl hst

/-- A message of the view change is counted, or is of no use any more. -/
theorem forward_handleStartViewChange (msg : StartViewChangeMessage) (s : Replica) :
    Sat (handleStartViewChange E msg) s (fun _ s' _ => Forward s s' ∧ Heard s' msg.view) fun _ _ => True := by
  simp only [handleStartViewChange, sat_bind, sat_get, sat_ite, sat_pure]
  have hrefl : Forward s s := Std.Refl.refl (r := Forward) s
  refine ⟨fun hlt => ⟨hrefl, Or.inl hlt⟩, fun hge => ⟨fun h => ⟨hrefl, Or.inr ⟨h.1, Or.inl h.2⟩⟩, fun hin => ?_⟩⟩
  refine (forward_join ⟨hge, hin⟩).mono (fun _ s₁ _ h₁ => ?_) fun _ _ h => h
  obtain ⟨hfwd, hview, -, -⟩ := h₁
  have hcount : Forward s (counting s₁ msg) ∧ Heard (counting s₁ msg) msg.view :=
    ⟨IsTrans.trans (r := Forward) _ _ _ hfwd (forward_counting s₁ msg),
      Or.inr ⟨hview.symm, Or.inr (startedBy_counting_self s₁ msg)⟩⟩
  simp only [sat_assert, sat_modify, sat_whenSome, sat_when, sat_bind, sat_ofOption, sat_emit, implies_true,
    and_true]
  exact fun _ => ⟨fun _ _ => ⟨fun _ _ _ => hcount, fun _ => hcount⟩, fun _ => hcount⟩

theorem stays_installLatest (msg latest : DoViewChangeMessage) : Relates Stays (installLatest msg latest) := by
  refine relates_get.bind fun s => ?_
  cases latest.entries with
  | nil => exact relates_assert.bind fun _ => relates_assert
  | cons e es =>
    exact relates_assert.bind fun _ => relates_ofOption.bind fun _ => relates_ofOption.bind fun _ =>
      stays_modify fun _ => rfl

/-- The view is entered, and what follows stays in it. -/
theorem forward_announceView {view latestOp minCommitted : Nat} {latestMsg : Option DoViewChangeMessage}
    (hv : s.view ≤ view) :
    Sat (announceView E view latestOp minCommitted latestMsg) s (fun _ s' _ => Forward s s') fun _ _ => True := by
  rw [announceView, sat_bind, sat_enterView]
  exact (forward_entered hv).then <| relates_forward <| relates_get.bind fun _ => relates_assert.bind fun _ =>
    .bind (stays_modify fun _ => rfl) fun _ => (Relates.whenSome fun _ => stays_commitUpTo _).bind fun _ =>
    relates_get.bind fun _ => relates_emit

theorem forward_handleDoViewChange (wild : Option Nat) (msg : DoViewChangeMessage) :
    Relates Forward (handleDoViewChange E wild msg) := by
  intro s
  simp only [handleDoViewChange, sat_bind, sat_get, sat_ite, sat_pure]
  have hrefl : Forward s s := Std.Refl.refl (r := Forward) s
  refine ⟨fun _ => hrefl, fun hge => ⟨fun _ => hrefl, fun hin => ?_⟩⟩
  refine (forward_join ⟨hge, hin⟩).mono (fun _ s₁ _ h₁ => ?_) fun _ _ h => h
  obtain ⟨hfwd, hview, -, -⟩ := h₁
  simp only [sat_assert, sat_modify, sat_whenSome, implies_true, and_true]
  refine fun _ => ⟨fun msgs _ => ?_, fun _ => hfwd⟩
  simp only [completeViewChange, sat_bind, sat_get, sat_whenSome, sat_ofOption, implies_true, and_true]
  have hrest : ∀ s₂ minCommitted latestOp latestMsg, Stays s₁ s₂ →
      Sat (announceView E msg.view latestOp minCommitted latestMsg) s₂ (fun _ s' _ => Forward s s')
        fun _ _ => True := fun s₂ _ _ _ h₂ =>
    (forward_announceView (by rw [h₂.view, hview])).mono
      (fun _ s₃ _ h₃ => IsTrans.trans (r := Forward) s s₂ s₃
        (IsTrans.trans (r := Forward) s s₁ s₂ hfwd h₂.forward) h₃) fun _ _ h => h
  exact ⟨fun latest _ => (stays_installLatest msg latest _).mono
      (fun _ s₂ _ h₂ _ _ _ _ => hrest s₂ _ _ _ h₂) fun _ _ h => h,
    fun _ _ _ _ _ => hrest _ _ _ _ rfl⟩

theorem stays_installStartView (msg : StartViewMessage) : Relates Stays (installStartView msg) := by
  refine relates_get.bind fun s => ?_
  cases msg.entries with
  | nil => exact relates_assert.bind fun _ => relates_assert
  | cons e es =>
    exact relates_assert.bind fun _ => relates_ofOption.bind fun _ => relates_ofOption.bind fun _ =>
      stays_modify fun _ => rfl

theorem forward_handleStartView (msg : StartViewMessage) : Relates Forward (handleStartView E msg) := by
  intro s
  simp only [handleStartView, sat_bind, sat_get, sat_ite, sat_pure, sat_assert, implies_true, and_true]
  have hrefl : Forward s s := Std.Refl.refl (r := Forward) s
  refine ⟨fun _ => hrefl, fun hge => ⟨fun _ => hrefl, fun _ _ => ?_⟩⟩
  refine (stays_installStartView msg s).mono (fun _ s₁ _ h₁ => ?_) fun _ _ h => h
  simp only [sat_enterView, sat_modify]
  have hent : Forward s (entered E s₁ msg.view) :=
    IsTrans.trans (r := Forward) _ _ _ h₁.forward (forward_entered (by rw [h₁.view]; omega))
  refine fun _ => (stays_commitUpTo msg.lastcommitted _).mono (fun _ s₂ _ h₂ => ?_) fun _ _ h => h
  exact Forward.then (IsTrans.trans (r := Forward) _ _ _ hent (Stays.forward h₂))
    (relates_forward (stays_sendPrepareOKs s.lastOp))

theorem stays_handleRecovery (remote : Addr) (msg : RecoveryMessage) :
    Relates Stays (handleRecovery E remote msg) :=
  relates_get.bind fun _ => .ite relates_pure relates_emit

theorem forward_handleRecoveryResponse (msg : RecoveryResponseMessage) :
    Relates Forward (handleRecoveryResponse E msg) := by
  intro s
  simp only [handleRecoveryResponse, sat_bind, sat_get, sat_ite, sat_pure, sat_modify, sat_whenSome, sat_assert,
    sat_when, implies_true, and_true]
  have hrefl : Forward s s := Std.Refl.refl (r := Forward) s
  refine ⟨fun _ => hrefl, fun hrec => ⟨fun _ => hrefl, fun _ => ?_⟩⟩
  have hstay : ∀ q, Forward s { s with recoveryResponseQuorum := q } := fun q => Stays.forward rfl
  refine ⟨fun msgs _ _ => ⟨fun m _ => ⟨fun _ => ?_, fun _ => hstay _⟩, fun _ => hstay _⟩, fun _ => hstay _⟩
  simp only [installRecovery, sat_bind, sat_get, sat_ofOption, sat_modify, sat_enterView, implies_true, and_true]
  intro log _
  -- a replica that recovers is in view 0, so that it goes forward whatever view it enters
  refine (stays_commitUpTo m.lastcommitted _).mono (fun _ s₂ _ h₂ hs => ?_) fun _ _ h => h
  have hview : s.view = 0 := hs (not_not.mp hrec)
  have hent (t : Replica) (ht : Stays s t) : Forward s (entered E t m.view) :=
    IsTrans.trans (r := Forward) _ _ _ ht.forward (forward_entered (by rw [ht.view]; omega))
  exact IsTrans.trans (r := Forward) _ _ _ (hent { s with recoveryResponseQuorum := _, log := log } rfl)
    (Stays.forward h₂) hs

theorem stays_sendRecoveryMessages : Relates Stays (sendRecoveryMessages E) :=
  relates_get.bind fun _ => relates_emit

theorem forward_timeout (t : Timer) : Relates Forward (timeout E t) := by
  cases t with
  | viewChange =>
    exact relates_get_bind fun s => sat_startViewChange.mpr (forward_changing (Nat.lt_succ_self s.view))
  | nullCommit => exact relates_forward <| relates_get.bind fun _ => relates_assert.bind fun _ => relates_emit
  | stateTransfer => exact relates_forward <| stays_modify fun _ => rfl
  | resendPrepare =>
    exact relates_forward <| relates_get.bind fun _ => relates_assert.bind fun _ => .ite relates_pure relates_emit
  | closeBatch => exact relates_forward stays_closeBatch
  | recovery => exact relates_forward stays_sendRecoveryMessages

theorem forward_receiveMessage (wild : Option Nat) (remote : Addr) (msg : ToReplicaMessage) :
    Relates Forward (receiveMessage E wild remote msg) := by
  cases msg with
  | request req => exact relates_forward (stays_handleRequest remote req)
  | unloggedRequest op => exact relates_forward (stays_handleUnloggedRequest remote op)
  | prepare m => exact relates_forward (stays_handlePrepare remote m)
  | prepareOK m => exact relates_forward (stays_handlePrepareOK m)
  | commit m => exact relates_forward (stays_handleCommit m)
  | requestStateTransfer m => exact relates_forward (stays_handleRequestStateTransfer remote m)
  | stateTransfer m => exact forward_handleStateTransfer m
  | startViewChange m =>
    exact fun s => (forward_handleStartViewChange m s).mono (fun _ _ _ h => h.1) fun _ _ h => h
  | doViewChange m => exact forward_handleDoViewChange wild m
  | startView m => exact forward_handleStartView m
  | recovery m => exact relates_forward (stays_handleRecovery remote m)
  | recoveryResponse m => exact forward_handleRecoveryResponse m
  | notSet => exact relates_abort

/-! ### The completion of a quorum -/

/-- The state in which `HandleDoViewChange` finds its quorum complete, if it does. -/
def completedAt (E : Env) (msg : DoViewChangeMessage) (s : Replica) : Option Replica :=
  let s₁ := if s.status ≠ .viewChange ∨ msg.view > s.view then changing s msg.view else s
  let q := s₁.doViewChangeQuorum.add msg.view msg.replicaidx msg
  if Heeds s msg.view ∧ E.config.getLeaderIndex msg.view = E.replicaIdx ∧
    (q.checkForQuorum msg.view).isSome = true then some { s₁ with doViewChangeQuorum := q }
  else none

/-- With the message, as many are there as the quorum takes. -/
def Fills (s : Replica) (msg : DoViewChangeMessage) : Prop :=
  ((s.doViewChangeQuorum.add msg.view msg.replicaidx msg).checkForQuorum msg.view).isSome = true

instance (s : Replica) (msg : DoViewChangeMessage) : Decidable (Fills s msg) :=
  inferInstanceAs (Decidable (_ = true))

variable {msg : DoViewChangeMessage}

/-- A quorum is completed by a message that fills it, in the view of the message, and with the
    StartViewChange messages that were there before. -/
theorem of_completedAt (h : completedAt E msg s = some s') :
    Heeds s msg.view ∧ Fills s msg ∧ s'.view = msg.view ∧ s'.startViewChangeQuorum = s.startViewChangeQuorum := by
  simp only [completedAt] at h
  split_ifs at h with hj hc hc
  · cases h
    exact ⟨hc.1, hc.2.2, rfl, rfl⟩
  · cases h
    rw [not_or, not_not] at hj
    have := hc.1.1
    exact ⟨hc.1, hc.2.2, by simp only; omega, rfl⟩

/-- A StartViewChange of the view has come: the set that the completion reads is not empty. -/
theorem startedBy_of_completedAt (h : completedAt E msg s = some s') (hv : Heard s msg.view) :
    startedBy s' s'.view ≠ [] := by
  obtain ⟨⟨hge, hin⟩, -, hview, hq⟩ := of_completedAt h
  rw [hview, startedBy, hq]
  rcases hv with hv | ⟨heq, hv⟩
  · exact absurd hv hge
  · exact hv.resolve_left fun hst => hin ⟨heq, hst⟩

/-! ### Runs -/

/-- A group, the views of which a StartViewChange has reached each replica since it was last started, and
    the StartViewChange messages that each completion has read. -/
structure Arrivals where
  sys : Sys
  heard : Nat → Nat → Bool
  consulted : List (List (Nat × StartViewChangeMessage))

/-- Does the event bring replica `r` a StartViewChange of view `v`? -/
def Event.starts (s : Sys) (r v : Nat) : Event → Bool
  | .deliver i _ => match s.net[i]? with
    | some ⟨_, dst, .startViewChange m⟩ => dst = r ∧ m.view = v
    | _ => false
  | _ => false

/-- Is the event a restart of replica `r`? -/
def Event.restarts (r : Nat) : Event → Bool
  | .restart r' _ => r' = r
  | _ => false

/-- The StartViewChange messages that the event makes a replica read, when it completes a quorum. -/
def Event.consults (G : Group) (s : Sys) : Event → Option (List (Nat × StartViewChangeMessage))
  | .deliver i _ => match s.net[i]? with
    | some ⟨_, dst, .doViewChange m⟩ =>
      (completedAt (G.env dst) m (s.replica dst)).map fun t => startedBy t t.view
    | _ => none
  | _ => none

/-- A step of the group. -/
def Arrivals.step (G : Group) (w : Arrivals) (e : Event) : Option Arrivals :=
  (w.sys.step G e).map fun s' =>
    { sys := s'
      heard := fun r v => !e.restarts r && (w.heard r v || e.starts w.sys r v)
      consulted := w.consulted ++ (e.consults G w.sys).toList }

/-- The runs of a group, with what has come. -/
def arrivals (G : Group) : System Arrivals Event where
  init := { sys := Sys.initial G, heard := fun _ _ => false, consulted := [] }
  step := Arrivals.step G

/-- A DoViewChange that fills the quorum of its view comes after some StartViewChange of the view. -/
def InOrder (w : Arrivals) : Event → Prop
  | .deliver i _ => ∀ p ∈ w.sys.net[i]?, match p.msg with
    | .doViewChange m => Fills (w.sys.replica p.dst) m → w.heard p.dst m.view = true
    | _ => True
  | _ => True

instance (w : Arrivals) (e : Event) : Decidable (InOrder w e) := by
  induction e using Event.casesOn with
  | deliver i wild =>
    have (p : Packet) : Decidable (match p.msg with
        | .doViewChange m => Fills (w.sys.replica p.dst) m → w.heard p.dst m.view = true
        | _ => True) := by
      cases p.msg <;> infer_instance
    exact inferInstanceAs (Decidable (∀ p ∈ w.sys.net[i]?, _))
  | _ => exact inferInstanceAs (Decidable True)

/-- What a running replica has heard it has counted, as long as that matters; and no completion has read an
    empty set. -/
structure ArrivalsInv (w : Arrivals) : Prop where
  unviewed : ∀ r, w.sys.stopped r = false → Unviewed (w.sys.replica r)
  heard : ∀ r v, w.sys.stopped r = false → w.heard r v = true → Heard (w.sys.replica r) v
  consulted : ∀ c ∈ w.consulted, c ≠ []

theorem unviewed_initial (E : Env) : Unviewed (Replica.initial E) := by
  rw [Replica.initial_eq]
  exact fun h => by cases h

/-- A handler that runs goes forward, and counts the StartViewChange that it is given. -/
theorem forward_handler {G : Group} {w : Arrivals} {e : Event} {r : Nat} {m : VRHandler Unit} {st : Replica}
    (he : e.handler G w.sys = some (r, m, st)) (hr : e.restarts r = false) :
    st = w.sys.replica r ∧ Sat m st (fun _ s' _ => Forward st s' ∧ ∀ v, e.starts w.sys r v = true → Heard s' v)
      fun _ _ => True := by
  rcases Event.of_handler he with ⟨wild, remote, msg, hmsg, rfl, rfl⟩ | ⟨t, rfl, -, rfl, rfl⟩ |
    ⟨nonce, rfl, -, -⟩
  · refine ⟨rfl, ?_⟩
    have hmono (h : ∀ v, e.starts w.sys r v = false) :
        Sat (receiveMessage (G.env r) wild remote msg) (w.sys.replica r)
          (fun _ s' _ => Forward (w.sys.replica r) s' ∧ ∀ v, e.starts w.sys r v = true → Heard s' v)
          fun _ _ => True :=
      (forward_receiveMessage wild remote msg _).mono (fun _ _ _ h' => ⟨h', fun v hv => by simp [h v] at hv⟩)
        fun _ _ h => h
    cases hmsg with
    | request => exact hmono fun _ => rfl
    | unlogged => exact hmono fun _ => rfl
    | deliver hp =>
      cases msg with
      | startViewChange x =>
        refine (forward_handleStartViewChange x _).mono (fun _ s' _ h => ⟨h.1, fun v hv => ?_⟩) fun _ _ h => h
        obtain rfl : x.view = v := by simpa [Event.starts, hp] using hv
        exact h.2
      | _ => exact hmono fun v => by simp [Event.starts, hp]
  · exact ⟨rfl, (forward_timeout t _).mono (fun _ _ _ h => ⟨h, fun v hv => by cases hv⟩) fun _ _ h => h⟩
  · simp [Event.restarts] at hr

/-- An event in order makes no replica read an empty set. -/
theorem consults_ne_nil {G : Group} {w : Arrivals} {e : Event} {s' : Sys} {c : List (Nat × StartViewChangeMessage)}
    (hw : ArrivalsInv w) (hc : InOrder w e) (hs : w.sys.step G e = some s') (h : e.consults G w.sys = some c) :
    c ≠ [] := by
  cases e with
  | deliver i wild =>
    obtain ⟨r, m, st, he, -, hlive, -⟩ := Sys.step_eq_some hs
    cases hp : w.sys.net[i]? with
    | none => simp [Event.consults, hp] at h
    | some p =>
      obtain ⟨src, dst, msg⟩ := p
      cases msg with
      | doViewChange x =>
        obtain ⟨t, ht, rfl⟩ : ∃ t, completedAt (G.env dst) x (w.sys.replica dst) = some t ∧
            startedBy t t.view = c := by simpa [Event.consults, hp] using h
        obtain rfl : dst = r := by
          have := he
          simp only [Event.handler, hp, Option.map_some, Option.some.injEq, Prod.mk.injEq] at this
          exact this.1
        have hheard := hc _ hp (of_completedAt ht).2.1
        exact startedBy_of_completedAt ht
          (hw.heard dst x.view (hlive.resolve_left (by simp [Event.isRestart])) hheard)
      | _ => simp [Event.consults, hp] at h
  | _ => cases h

theorem arrivalsInv_step {G : Group} {w w' : Arrivals} {e : Event} (hw : ArrivalsInv w) (hc : InOrder w e)
    (hstep : w.step G e = some w') : ArrivalsInv w' := by
  obtain ⟨s', hs', rfl⟩ := Option.map_eq_some_iff.mp hstep
  have hconsulted : ∀ c ∈ w.consulted ++ (e.consults G w.sys).toList, c ≠ [] := by
    intro c hmem
    rcases List.mem_append.mp hmem with hmem | hmem
    · exact hw.consulted c hmem
    · exact consults_ne_nil hw hc hs' (Option.mem_toList.mp hmem)
  obtain ⟨r, m, st, he, -, hlive, rfl⟩ := Sys.step_eq_some hs'
  have hkept : ∀ r', r' ≠ r → e.restarts r' = false ∧ ∀ v, e.starts w.sys r' v = false := by
    intro r' hne
    rcases Event.of_handler he with ⟨wild, remote, msg, hmsg, -, -⟩ | ⟨t, rfl, -, -, -⟩ | ⟨nonce, rfl, -, -⟩
    · cases hmsg with
      | request => exact ⟨rfl, fun _ => rfl⟩
      | unlogged => exact ⟨rfl, fun _ => rfl⟩
      | deliver hp =>
        refine ⟨rfl, fun v => ?_⟩
        cases msg <;> simp [Event.starts, hp, Ne.symm hne]
    · exact ⟨rfl, fun _ => rfl⟩
    · exact ⟨by simp [Event.restarts, Ne.symm hne], fun _ => rfl⟩
  by_cases hres : e.restarts r = true
  · -- a replica that starts again has heard nothing
    obtain ⟨nonce, rfl⟩ : ∃ nonce, e = .restart r nonce := by
      cases e with
      | restart r' nonce => exact ⟨nonce, by rw [of_decide_eq_true hres]⟩
      | _ => cases hres
    obtain ⟨rfl, rfl⟩ : sendRecoveryMessages (G.env r) = m ∧ Replica.restarted (G.env r) nonce = st := by
      simpa [Event.handler] using he
    refine ⟨fun r' hlive' => ?_, fun r' v hlive' hv => ?_, hconsulted⟩
    · by_cases hrr : r' = r
      · subst hrr
        simp only [Sys.after, if_true]
        exact fun _ => rfl
      · simp only [Sys.after, if_neg hrr] at hlive' ⊢
        exact hw.unviewed r' hlive'
    · by_cases hrr : r' = r
      · subst hrr
        simp [Event.restarts] at hv
      · obtain ⟨hr', hstarts⟩ := hkept r' hrr
        simp only [Sys.after, if_neg hrr] at hlive' ⊢
        exact hw.heard r' v hlive' (by simpa [hr', hstarts] using hv)
  · have hres : e.restarts r = false := by simpa using hres
    obtain ⟨rfl, hsat⟩ := forward_handler he hres
    have hlive : w.sys.stopped r = false := hlive.resolve_left fun h => by
      cases e with
      | restart r' nonce =>
        have : r' = r := congrArg Prod.fst (Option.some.inj he)
        simp [Event.restarts, this] at hres
      | _ => cases h
    refine ⟨fun r' hlive' => ?_, fun r' v hlive' hv => ?_, hconsulted⟩
    · by_cases hrr : r' = r
      · subst hrr
        rcases hsat.cases with ⟨_, s₁, o, hm, hs₁, -⟩ | ⟨s₁, o, hm, -⟩
        · simpa [Sys.after, hm] using (hs₁ (hw.unviewed r' hlive)).1
        · simp [Sys.after, hm] at hlive'
      · simp only [Sys.after, if_neg hrr] at hlive' ⊢
        exact hw.unviewed r' hlive'
    · by_cases hrr : r' = r
      · subst hrr
        rcases hsat.cases with ⟨_, s₁, o, hm, hs₁, hnew⟩ | ⟨s₁, o, hm, -⟩
        · have hv' : w.heard r' v = true ∨ e.starts w.sys r' v = true := by simpa [hres] using hv
          have : Heard s₁ v := hv'.elim
            (fun h => hs₁.heard (hw.unviewed r' hlive) (hw.heard r' v hlive h)) (hnew v)
          simpa [Sys.after, hm] using this
        · simp [Sys.after, hm] at hlive'
      · obtain ⟨hr', hstarts⟩ := hkept r' hrr
        simp only [Sys.after, if_neg hrr] at hlive' ⊢
        exact hw.heard r' v hlive' (by simpa [hr', hstarts] using hv)

theorem arrivalsInv_of_run {G : Group} {past : List Arrivals} {w : Arrivals}
    (h : Run (arrivals G) InOrder past w) : ArrivalsInv w :=
  h.invariant (I := fun _ w => ArrivalsInv w)
    ⟨fun r _ => unviewed_initial (G.env r), fun _ _ _ h => by simp [arrivals] at h,
      fun _ h => by simp [arrivals] at h⟩
    fun _ _ _ _ _ hw hc hs => arrivalsInv_step hw hc hs

/-- In a run in which every DoViewChange that fills a quorum comes after a StartViewChange of its view, no
    completion looks for the least element of an empty set. -/
theorem completions_well_defined (G : Group) {past : List Arrivals} {w : Arrivals}
    (h : Run (arrivals G) InOrder past w) : ∀ c ∈ w.consulted, c ≠ [] :=
  (arrivalsInv_of_run h).consulted

/-- The view change to view 1 in the order in which the messages are sent. -/
theorem completions_well_defined_threeReplicas : ∃ past w, Run (arrivals threeReplicas) InOrder past w ∧
    w.consulted.length = 1 ∧ ∀ c ∈ w.consulted, c ≠ [] := by
  obtain ⟨past, w, hr, hw⟩ := Run.exists_of_exec (arrivals threeReplicas) InOrder
    [.timeout 2 .viewChange, .deliver 1 none, .deliver 0 none, .deliver 6 none]
    (fun w => w.consulted.length = 1) (by decide +kernel)
  exact ⟨past, w, hr, of_decide_eq_true hw, completions_well_defined threeReplicas hr⟩

/-- The DoViewChange of replica 0 reaches the leader of view 1 before any StartViewChange. -/
theorem completion_reads_empty_set : ∃ past w, Run (arrivals threeReplicas) (fun _ _ => True) past w ∧
    [] ∈ w.consulted := by
  obtain ⟨past, w, hr, hw⟩ := Run.exists_of_exec (arrivals threeReplicas) (fun _ _ => True)
    [.timeout 2 .viewChange, .deliver 0 none, .deliver 4 none]
    (fun w => [] ∈ w.consulted) (by decide +kernel)
  exact ⟨past, w, hr, of_decide_eq_true hw⟩

end Dsnet.VR
