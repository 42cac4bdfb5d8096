import Dsnet.Lib.Beside
import Dsnet.NOPaxos.Replica

/-! `NOPaxosReplica::ProcessNextOperation`: what is logged, and when `stateTransferCallback` is called.

    The function logs one operation and then goes on by itself to the slots after it that are committed
    gaps (`processGaps`), so that one call may log several entries. It calls back when it logs the slot
    that `stateTransferOpEnd` names. The calls are counted beside the state. -/

namespace Dsnet.NOPaxos
open Handler

variable {E : Env} {s s' : Replica}

/-! ### Executing -/

/-- The replica but for what executing changes. -/
def Replica.unexecuted (s : Replica) : Replica :=
  { s with lastExecutedOp := 0, upcalls := [], clientTable := fun _ => none }

/-- The log ends with the last operation. -/
def Replica.Whole (s : Replica) : Prop := s.log.entries.length = s.lastOp

theorem unexecuted_eq (h : s'.unexecuted = s.unexecuted) : s' = { s with
    lastExecutedOp := s'.lastExecutedOp, upcalls := s'.upcalls, clientTable := s'.clientTable } := by
  cases s
  cases s'
  simp only [Replica.unexecuted, Replica.mk.injEq] at h
  simp only [Replica.mk.injEq, true_and, and_true]
  tauto

/-- A client table entry is older than the request that is executed. -/
theorem executeRequest_spec {op : Nat} {entry : LogEntry}
    (h : (s.clientEntry entry.request.clientid).lastReqId ≤ entry.request.clientreqid) :
    Sat (executeRequest E op entry) s
      (fun _ s' _ => s'.unexecuted = s.unexecuted ∧ s'.lastExecutedOp = s.lastExecutedOp) fun _ _ => False := by
  simp only [executeRequest, updateClientTable, replyExecuted, sat_bind, sat_get, sat_modify, sat_assert,
    sat_when, sat_emit]
  exact ⟨fun _ => ⟨fun _ => ⟨rfl, rfl⟩, fun _ => ⟨rfl, rfl⟩⟩, fun hn => hn h⟩

/-- The next entry of a whole log is executed. -/
theorem executeNext_spec (s : Replica) :
    Sat (executeNext E) s
      (fun _ s' _ => s'.unexecuted = s.unexecuted ∧ s'.lastExecutedOp = s.lastExecutedOp + 1)
      fun _ _ => ¬ (s.Whole ∧ s.lastExecutedOp < s.lastOp) := by
  simp only [executeNext, sat_bind, sat_get, sat_assert, sat_ofOption, sat_modify, sat_when]
  refine ⟨fun hle => ⟨fun entry _ => ⟨fun _ => ?_, fun _ => ⟨rfl, trivial⟩⟩, fun hnone hs => ?_⟩,
    fun hgt hs => hgt hs.2⟩
  · have hdone : ∀ {m : NOPaxosHandler Unit}, Sat m { s with lastExecutedOp := s.lastExecutedOp + 1 }
        (fun _ s' _ => s'.unexecuted = s.unexecuted ∧ s'.lastExecutedOp = s.lastExecutedOp + 1)
        (fun _ _ => False) → Sat m { s with lastExecutedOp := s.lastExecutedOp + 1 }
        (fun _ s' _ => s'.unexecuted = s.unexecuted ∧ s'.lastExecutedOp = s.lastExecutedOp + 1)
        fun _ _ => ¬ (s.Whole ∧ s.lastExecutedOp < s.lastOp) :=
      fun h => h.mono (fun _ _ _ h => h) fun _ _ h => h.elim
    cases hc : s.clientTable entry.request.clientid with
    | none =>
      exact hdone (executeRequest_spec (by simp [Replica.clientEntry, hc]))
    | some cte =>
      simp only [replyExecuted, sat_ite, sat_pure, sat_when, sat_emit]
      refine ⟨fun _ => ⟨rfl, trivial⟩, fun hge => ⟨fun _ => ⟨fun _ => ⟨rfl, trivial⟩, fun _ => ⟨rfl, trivial⟩⟩, fun _ => ?_⟩⟩
      exact hdone (executeRequest_spec (by simp only [Replica.clientEntry, hc, Option.getD_some]; omega))
  · obtain ⟨hw, hlt⟩ := hs
    have := (Log.find_eq_none (by omega)).mp hnone
    simp only [Replica.Whole] at hw
    omega

/-- A whole log is executed as far as it goes. -/
theorem executeUptoOp_spec (s : Replica) (opnum : Nat) :
    Sat (executeUptoOp E opnum) s (fun _ s' _ => s'.unexecuted = s.unexecuted)
      fun _ _ => ¬ (s.Whole ∧ opnum ≤ s.lastOp) := by
  simp only [executeUptoOp, sat_bind, sat_get, sat_ite, sat_pure, sat_assert]
  refine ⟨fun _ => trivial, fun hgt => ⟨fun hle => ?_, fun hnot hs => hnot (by omega)⟩⟩
  refine (sat_iterate (fun n t _ => t.unexecuted = s.unexecuted ∧ t.lastExecutedOp + n = opnum)
    ⟨rfl, by omega⟩ ?_).mono (fun _ _ _ h => h.1) fun _ _ h => h
  rintro n t - ⟨ht, hn⟩
  have hframe := unexecuted_eq ht
  refine (executeNext_spec t).mono (fun _ t' _ h => ⟨h.1.trans ht, by omega⟩) fun _ _ h hs => h ?_
  rw [hframe]
  exact ⟨hs.1, by simp only; omega⟩

/-! ### Calling back -/

/-- What a callback leaves as it is. -/
def Replica.held (s : Replica) : Log × Nat × StdSet Nat × Nat × Nat :=
  (s.log, s.lastOp, s.committedGaps, s.sessnum, s.view)

theorem held_eq (h : s'.held = s.held) : s'.log = s.log ∧ s'.lastOp = s.lastOp ∧
    s'.committedGaps = s.committedGaps ∧ s'.sessnum = s.sessnum ∧ s'.view = s.view := by
  simpa [Replica.held] using h

/-- The sync point of a leader is in its log. -/
def Replica.Synced (s : Replica) : Prop := s.leaderLastSyncPreparePoint ≤ s.lastOp

/-- A view is entered with the log as it is, and no state transfer goes on. -/
theorem enterView_spec (s : Replica) (newsessnum newview : Nat) :
    Sat (enterView E newsessnum newview) s
      (fun _ s' _ => s'.log = s.log ∧ s'.lastOp = s.lastOp ∧ s'.committedGaps = s.committedGaps ∧
        s'.sessnum = newsessnum ∧ s'.view = newview ∧ s'.stateTransferOpEnd = 0 ∧
        s'.active .stateTransfer = false ∧ (s.Synced → s'.Synced))
      fun _ _ => ¬ (s.Whole ∧ s.Synced ∧ s.sessnum ≤ newsessnum ∧ s.view ≤ newview) := by
  simp only [enterView, sat_bind, sat_get, sat_assert, sat_modify, sat_ite]
  refine ⟨fun hsess => ⟨fun hview => ⟨fun hl => ?_, fun hl => ?_⟩, fun hn hs => hn hs.2.2.2⟩,
    fun hn hs => hn hs.2.2.1⟩
  · refine (executeUptoOp_spec _ _).mono (fun _ s₁ _ h₁ => ?_) fun _ _ h hs => h ⟨hs.1, le_refl _⟩
    have hframe := unexecuted_eq h₁
    have hleader : amLeader E s₁ := by
      rw [hframe]
      exact hl
    have hlast : s₁.lastOp = s.lastOp ∧ s₁.leaderLastSyncPreparePoint = s.leaderLastSyncPreparePoint := by
      rw [hframe]
      exact ⟨rfl, rfl⟩
    simp only [sendStartView, sat_bind, sat_get, sat_assert, sat_modify, sat_emit]
    refine ⟨fun hpoint => ⟨fun _ => ?_, fun hn => (hn hleader).elim⟩, fun hn hs => hn ?_⟩
    · rw [hframe]
      exact ⟨rfl, rfl, rfl, rfl, rfl, rfl, rfl, fun _ => le_refl _⟩
    · simp only [Replica.start, hlast]
      exact hs.2.1
  · simp only [sendStartViewReply, sat_bind, sat_get, sat_assert, sat_emit]
    refine ⟨fun _ => ⟨fun _ => ⟨rfl, rfl, rfl, rfl, rfl, rfl, rfl, fun h => h⟩, fun hn => (hn ?_).elim⟩,
      fun hn => (hn hl).elim⟩
    simp [Replica.start, Replica.entered, Replica.clearTimeoutAndQuorums]

/-- Committing does not touch what a callback leaves as it is. -/
theorem commitUptoOp_spec (s : Replica) (opnum : Nat) :
    Sat (commitUptoOp E opnum) s
      (fun _ s' _ => s'.unexecuted = { s.unexecuted with lastCommittedOp := max s.lastCommittedOp opnum })
      fun _ _ => ¬ (s.Whole ∧ opnum ≤ s.lastOp) := by
  simp only [commitUptoOp, sendSyncCommit, sat_bind, sat_get, sat_ite, sat_pure, sat_assert, sat_modify,
    sat_when, sat_emit]
  refine ⟨fun hle => ?_, fun hgt => ⟨fun hle => ⟨fun hl => ⟨fun _ => ?_, fun hn => (hn hl).elim⟩, fun _ => ?_⟩,
    fun hn hs => hn (by omega)⟩⟩
  · rw [max_eq_left hle]
    rfl
  all_goals
    refine (executeUptoOp_spec _ _).mono (fun _ s' _ h => ?_) fun _ _ h hs => h hs
    rw [h, max_eq_right (by omega)]
    rfl

/-- A replica that does not lead acknowledges the sync point, or commits up to it. -/
theorem processSyncPrepare_spec (s : Replica) (syncpoint : Nat) :
    Sat (processSyncPrepare E syncpoint) s
      (fun _ s' _ => s'.held = s.held ∧ s'.stateTransferOpEnd = s.stateTransferOpEnd ∧
        s'.stateTransferCallback = s.stateTransferCallback ∧ s'.active = s.active ∧
        s'.leaderLastSyncPreparePoint = s.leaderLastSyncPreparePoint)
      fun _ _ => ¬ (s.Whole ∧ ¬ amLeader E s ∧ syncpoint ≤ s.lastOp) := by
  simp only [processSyncPrepare, sat_bind, sat_get, sat_assert, sat_ite, sat_modify, sat_emit]
  refine ⟨fun _ => ⟨fun _ => ?_, fun _ => by simp⟩,
    fun hn hs => hn hs.2.1⟩
  refine (commitUptoOp_spec s syncpoint).mono (fun _ s' _ h => ?_) fun _ _ h hs => h ⟨hs.1, hs.2.2⟩
  cases s'
  simp only [Replica.unexecuted, Replica.mk.injEq] at h
  simp only [Replica.held, Prod.mk.injEq]
  tauto

/-! ### What no assertion fails from -/

/-- The callback of a state transfer can be called once the slot that it is called for is logged. -/
def Callable (E : Env) (s : Replica) : Option Callback → Prop
  | none => False
  | some .enterView => True
  | some (.processSyncPrepare syncpoint) => ¬ amLeader E s ∧ syncpoint ≤ s.stateTransferOpEnd

theorem Callable.congr {cb : Option Callback} (h : Callable E s cb) (hview : s'.view = s.view)
    (hend : s'.stateTransferOpEnd = s.stateTransferOpEnd) : Callable E s' cb := by
  match cb, h with
  | some .enterView, _ => trivial
  | some (.processSyncPrepare p), h => exact ⟨by rw [amLeader, hview]; exact h.1, by rw [hend]; exact h.2⟩

/-- No assertion fails when the next operations are logged. -/
structure Replica.Sound (E : Env) (s : Replica) : Prop where
  whole : s.Whole
  synced : s.Synced
  callback : s.stateTransferOpEnd ≠ 0 → Callable E s s.stateTransferCallback

/-- The callback is called for the slot that `stateTransferOpEnd` names, and for no other. -/
theorem completeStateTransfer_spec {opnum : Nat} (hpos : 1 ≤ opnum) (hop : opnum ≤ s.lastOp) :
    Sat (completeStateTransfer E opnum) s
      (fun _ s' _ => s'.held = s.held ∧ (s.Sound E → s'.Sound E) ∧
        (opnum = s.stateTransferOpEnd → s'.active .stateTransfer = false ∧
          (s'.stateTransferOpEnd = 0 ∨ s'.stateTransferOpEnd = s.stateTransferOpEnd)) ∧
        (opnum ≠ s.stateTransferOpEnd → s' = s))
      fun _ _ => ¬ s.Sound E := by
  simp only [completeStateTransfer, sat_bind, sat_get, sat_when, sat_modify]
  refine ⟨fun heq => ?_, fun hne => ⟨trivial, fun h => h, fun h => absurd h hne, fun _ => trivial⟩⟩
  have hnz : s.stateTransferOpEnd ≠ 0 := by omega
  have hcall (h : s.Sound E) := h.callback hnz
  have hstop : (s.stop .stateTransfer).active .stateTransfer = false := by simp [Replica.stop]
  cases hcb : s.stateTransferCallback with
  | none =>
    refine sat_abort.mpr fun h => ?_
    have := hcall h
    rwa [hcb] at this
  | some cb =>
    cases cb with
    | enterView =>
      refine (enterView_spec _ _ _).mono (fun _ s' _ h => ?_)
        fun _ _ h hs => h ⟨hs.whole, hs.synced, le_refl _, le_refl _⟩
      obtain ⟨hlog, hlast, hgaps, hsess, hview, hend, hact, hsync⟩ := h
      refine ⟨?_, fun hs => ⟨?_, hsync hs.synced, fun h => absurd hend h⟩, fun _ => ⟨hact, Or.inl hend⟩,
        fun h => absurd heq h⟩
      · rw [Replica.held, hlog, hlast, hgaps, hsess, hview]
        rfl
      · rw [Replica.Whole, hlog, hlast]
        exact hs.whole
    | processSyncPrepare p =>
      refine (processSyncPrepare_spec _ p).mono (fun _ s' _ h => ?_) fun _ _ h hs => h ?_
      · obtain ⟨hheld, hend, hcb', hact, hpoint⟩ := h
        obtain ⟨hlog, hlast, -, -, hview⟩ := held_eq hheld
        refine ⟨hheld, fun hs => ⟨?_, ?_, fun _ => ?_⟩, fun _ => ⟨by rw [hact, hstop], Or.inr hend⟩,
          fun h => absurd heq h⟩
        · rw [Replica.Whole, hlog, hlast]
          exact hs.whole
        · rw [Replica.Synced, hpoint, hlast]
          exact hs.synced
        · rw [hcb']
          exact (hcall hs).congr hview hend
      · have := hcall hs
        rw [hcb] at this
        exact ⟨hs.whole, this.1, by rw [heq] at hop; exact this.2.trans hop⟩

/-! ### One operation -/

/-- The entry that is logged: a NOOP in a slot that is a committed gap. -/
def loggedEntry (s : Replica) (request : Request) (vs : Viewstamp) (state : LogEntryState) : LogEntry :=
  { viewstamp := vs, state := if vs.opnum ∈ s.committedGaps.toList then .noop else state, request := request }

/-- The entries `es` have been logged, the NOOPs among them as committed gaps. -/
structure Logged (E : Env) (s s' : Replica) (es : List LogEntry) : Prop where
  log : s'.log.entries = s.log.entries ++ es
  lastOp : s'.lastOp = s.lastOp + es.length
  gaps : ∀ x, x ∈ s'.committedGaps.toList ↔
    x ∈ s.committedGaps.toList ∨ ∃ e ∈ es, e.state = .noop ∧ e.opnum = x
  sessnum : s'.sessnum = s.sessnum
  view : s'.view = s.view
  whole : es ≠ [] → s.Whole
  sound : s.Sound E → s'.Sound E

/-- A NOOP is recorded as a committed gap, and nothing else that counts happens. -/
theorem answerOperation_spec {request : Request} {vs : Viewstamp} {state : LogEntryState} (hw : s.Whole)
    (hvs : vs.opnum = s.lastOp) :
    Sat (answerOperation E request vs state) s
      (fun _ s' _ => s'.unexecuted = Replica.unexecuted { s with
        committedGaps := if state = .noop then s.committedGaps.insert s.lastOp else s.committedGaps })
      fun _ _ => False := by
  by_cases hnoop : state = .noop
  · simp only [answerOperation, if_pos hnoop, sat_modify]
  · simp only [answerOperation, if_neg hnoop, sat_when, sat_ite, sat_emit]
    refine ⟨fun _ => ⟨fun _ => ?_, fun _ => trivial⟩, fun _ => trivial⟩
    exact (executeUptoOp_spec s vs.opnum).mono (fun _ _ _ h => h) fun _ _ h => h ⟨hw, hvs.le⟩

/-- Entries are appended only where the log ends with the last operation. -/
theorem logOperation_spec {request : Request} {vs : Viewstamp} {state : LogEntryState}
    (hvs : vs.opnum = s.lastOp + 1) :
    Sat (logOperation E request vs state) s
      (fun _ s' _ => Logged E s s' [loggedEntry s request vs state] ∧
        s'.stateTransferOpEnd = s.stateTransferOpEnd ∧ s'.active .stateTransfer = s.active .stateTransfer)
      fun _ _ => ¬ s.Whole := by
  simp only [logOperation, sat_bind, sat_get, sat_assert, sat_modify, sat_ofOption, sat_when]
  refine ⟨fun _ => ⟨fun log hlog => ?_, fun hnone hw => ?_⟩, fun hn => absurd hvs hn⟩
  · obtain ⟨hop, hent⟩ := Log.append_eq_some.mp hlog
    have hwhole : s.Whole := by
      simp only [LogEntry.opnum] at hop
      simp only [Replica.Whole]
      omega
    have hlen : log.entries.length = vs.opnum := by
      rw [hent, List.length_append, List.length_singleton, hvs, hwhole]
    have hdone {t : Replica} (ht : t.log = log ∧ t.lastOp = vs.opnum ∧ t.committedGaps = s.committedGaps ∧
        t.sessnum = s.sessnum ∧ t.view = s.view ∧ t.leaderLastSyncPreparePoint = s.leaderLastSyncPreparePoint ∧
        t.stateTransferCallback = s.stateTransferCallback ∧ t.stateTransferOpEnd = s.stateTransferOpEnd ∧
        t.active .stateTransfer = s.active .stateTransfer) :
        Sat (answerOperation E request vs (if vs.opnum ∈ s.committedGaps.toList then .noop else state)) t
          (fun _ s' _ => Logged E s s' [loggedEntry s request vs state] ∧
            s'.stateTransferOpEnd = s.stateTransferOpEnd ∧
            s'.active .stateTransfer = s.active .stateTransfer) fun _ _ => ¬ s.Whole := by
      obtain ⟨htlog, htlast, htgaps, htsess, htview, htpoint, htcb, htend, htact⟩ := ht
      refine (answerOperation_spec (by rw [Replica.Whole, htlog, htlast, hlen]) htlast.symm).mono
        (fun _ s' _ h => ?_) fun _ _ h => h.elim
      have hframe := unexecuted_eq h
      refine ⟨⟨?_, ?_, fun x => ?_, ?_, ?_, fun _ => hwhole, fun hs => ⟨?_, ?_, fun hend => ?_⟩⟩, ?_, ?_⟩
      · rw [hframe, htlog, hent]
        rfl
      · rw [hframe, htlast, hvs]
        rfl
      · rw [hframe]
        simp only [htgaps, htlast, List.mem_singleton, exists_eq_left]
        by_cases hn : (loggedEntry s request vs state).state = .noop
        · simp only [hn, true_and]
          rw [show (if vs.opnum ∈ s.committedGaps.toList then LogEntryState.noop else state) = .noop from hn,
            if_pos rfl, StdSet.mem_insert, or_comm]
          exact or_congr_right eq_comm
        · simp only [hn, false_and, or_false]
          rw [if_neg (show ¬ (if vs.opnum ∈ s.committedGaps.toList then LogEntryState.noop else state) = .noop
            from hn)]
      · rw [hframe, htsess]
      · rw [hframe, htview]
      · rw [hframe, Replica.Whole, htlog, htlast, hlen]
      · rw [hframe, Replica.Synced, htpoint, htlast]
        have : s.leaderLastSyncPreparePoint ≤ s.lastOp := hs.synced
        omega
      · rw [hframe] at hend ⊢
        simp only [htend, htcb] at hend ⊢
        exact (hs.callback hend).congr htview rfl
      · rw [hframe, htend]
      · rw [hframe, htact]
    exact ⟨fun _ => hdone ⟨rfl, rfl, rfl, rfl, rfl, rfl, rfl, rfl, rfl⟩,
      fun _ => hdone ⟨rfl, rfl, rfl, rfl, rfl, rfl, rfl, rfl, rfl⟩⟩
  · have hop : vs.opnum = s.log.lastOpnum + 1 := by rw [Log.lastOpnum_eq, hw, hvs]
    simp [Log.append, LogEntry.opnum, hop] at hnone

theorem Logged.refl (s : Replica) : Logged E s s [] :=
  ⟨by simp, by simp, by simp, rfl, rfl, by simp, fun h => h⟩

theorem Logged.trans {s₁ s₂ s₃ : Replica} {es es' : List LogEntry} (h : Logged E s₁ s₂ es)
    (h' : Logged E s₂ s₃ es') : Logged E s₁ s₃ (es ++ es') where
  log := by rw [h'.log, h.log, List.append_assoc]
  lastOp := by rw [h'.lastOp, h.lastOp, List.length_append, Nat.add_assoc]
  gaps x := by
    rw [h'.gaps, h.gaps, or_assoc]
    simp only [List.mem_append, or_and_right, exists_or]
  sessnum := h'.sessnum.trans h.sessnum
  view := h'.view.trans h.view
  whole hne := by
    by_cases hes : es = []
    · subst hes
      have hw : s₂.Whole := h'.whole (by simpa using hne)
      have hlog := h.log
      have hlast := h.lastOp
      simp only [List.append_nil, List.length_nil, Nat.add_zero] at hlog hlast
      rwa [Replica.Whole, hlog, hlast] at hw
    · exact h.whole hes
  sound hs := h'.sound (h.sound hs)

/-- The entries that have been logged follow the last operation. -/
theorem Logged.numbered {es : List LogEntry} (h : Logged E s s' es) : Log.NumberedFrom (s.lastOp + 1) es := by
  intro i e he
  have hne : es ≠ [] := by
    rintro rfl
    simp at he
  have hw : s.log.entries.length = s.lastOp := h.whole hne
  have := s'.log.numbered (s.log.entries.length + i) e (by
    rw [h.log, List.getElem?_append_right (Nat.le_add_right _ _), Nat.add_sub_cancel_left]
    exact he)
  simp only [LogEntry.opnum] at this ⊢
  omega

/-- What is held beside the state is the number of the calls of `stateTransferCallback`: one more when the slot
    that `stateTransferOpEnd` names has been logged, and then the timer is stopped as well. -/
structure Counts (t t' : Replica × Nat) : Prop where
  called : t.1.lastOp < t.1.stateTransferOpEnd → t.1.stateTransferOpEnd ≤ t'.1.lastOp →
    t'.2 = t.2 + 1 ∧ t'.1.active .stateTransfer = false ∧
      (t'.1.stateTransferOpEnd = 0 ∨ t'.1.stateTransferOpEnd = t.1.stateTransferOpEnd)
  uncalled : ¬ (t.1.lastOp < t.1.stateTransferOpEnd ∧ t.1.stateTransferOpEnd ≤ t'.1.lastOp) →
    t'.2 = t.2 ∧ t'.1.active .stateTransfer = t.1.active .stateTransfer ∧
      t'.1.stateTransferOpEnd = t.1.stateTransferOpEnd

theorem Counts.refl (t : Replica × Nat) : Counts t t :=
  ⟨fun _ _ => by omega, fun _ => ⟨rfl, rfl, rfl⟩⟩

theorem Counts.trans {t t' t'' : Replica × Nat} (h : Counts t t') (h' : Counts t' t'')
    (hle : t.1.lastOp ≤ t'.1.lastOp) (hle' : t'.1.lastOp ≤ t''.1.lastOp) : Counts t t'' := by
  by_cases hc : t.1.lastOp < t.1.stateTransferOpEnd ∧ t.1.stateTransferOpEnd ≤ t'.1.lastOp
  · obtain ⟨hn, hact, hend⟩ := h.called hc.1 hc.2
    obtain ⟨hn', hact', hend'⟩ := h'.uncalled (by omega)
    exact ⟨fun _ _ => ⟨by omega, hact'.trans hact, by rwa [hend']⟩, fun hno => absurd ⟨hc.1, by omega⟩ hno⟩
  · obtain ⟨hn, hact, hend⟩ := h.uncalled hc
    refine ⟨fun hlt hle'' => ?_, fun hno => ?_⟩
    · obtain ⟨hn', hact', hend'⟩ := h'.called (by omega) (by omega)
      exact ⟨by omega, hact', by rwa [hend] at hend'⟩
    · obtain ⟨hn', hact', hend'⟩ := h'.uncalled (by omega)
      exact ⟨by omega, hact'.trans hact, hend'.trans hend⟩

/-! ### Counting the calls -/

variable (E)

/-- `processOperation`, with the count of the calls of `stateTransferCallback`. -/
def processOperationCounted (request : Request) (vs : Viewstamp) (state : LogEntryState) :
    Handler (Replica × Nat) Output Unit := do
  beside (logOperation E request vs state)
  ghost fun s calls => if vs.opnum = s.stateTransferOpEnd then calls + 1 else calls
  beside (completeStateTransfer E vs.opnum)

/-- `processGaps`, with the count. -/
def processGapsCounted (request : Request) : Nat → Viewstamp → Handler (Replica × Nat) Output Unit
  | 0, _ => pure ()
  | n + 1, vs => do
    let s ← beside get
    when (s.lastOp + 1 ∈ s.committedGaps.toList) do
      let next := { vs with opnum := s.lastOp + 1, msgnum := s.nextMsgnum }
      processOperationCounted E request next .noop
      processGapsCounted request n next

/-- `ProcessNextOperation`, with the count. -/
def processNextOperationCounted (request : Request) (vs : Viewstamp) (state : LogEntryState) :
    Handler (Replica × Nat) Output Unit := do
  processOperationCounted E request vs state
  let s ← beside get
  processGapsCounted E request s.committedGaps.size vs

variable {E} {request : Request} {vs : Viewstamp} {state : LogEntryState} {t : Replica × Nat}

theorem erases_processOperation :
    Erases (processOperationCounted E request vs state) (processOperation E request vs state) :=
  (erases_beside _).bind fun _ => (erases_beside _).ghost_bind

theorem erases_processGaps : ∀ (n : Nat) (vs : Viewstamp),
    Erases (processGapsCounted E request n vs) (processGaps E request n vs)
  | 0, _ => erases_pure ()
  | n + 1, _ => (erases_beside get).bind fun _ => .when <| erases_processOperation.bind fun _ =>
      erases_processGaps n _

theorem erases_processNextOperation :
    Erases (processNextOperationCounted E request vs state) (processNextOperation E request vs state) :=
  erases_processOperation.bind fun _ => (erases_beside get).bind fun _ => erases_processGaps _ _

/-- One operation is logged, and the callback called if it is the one. -/
theorem processOperationCounted_spec (hvs : vs.opnum = t.1.lastOp + 1) :
    Sat (processOperationCounted E request vs state) t
      (fun _ t' _ => Logged E t.1 t'.1 [loggedEntry t.1 request vs state] ∧ Counts t t')
      fun _ _ => ¬ t.1.Sound E := by
  simp only [processOperationCounted, sat_bind, sat_beside, sat_ghost]
  refine (logOperation_spec hvs).mono (fun _ s₁ _ h₁ => ?_) fun _ _ h hs => h hs.whole
  obtain ⟨hlogged, hend, hact⟩ := h₁
  have hlast : s₁.lastOp = t.1.lastOp + 1 := hlogged.lastOp
  refine (completeStateTransfer_spec (by omega) (by omega)).mono (fun _ s₂ _ h₂ => ?_)
    fun _ _ h hs => h (hlogged.sound hs)
  obtain ⟨hheld, hsound, hcalled, huncalled⟩ := h₂
  obtain ⟨hlog₂, hlast₂, hgaps₂, hsess₂, hview₂⟩ := held_eq hheld
  refine ⟨⟨by rw [hlog₂, hlogged.log], by rw [hlast₂, hlogged.lastOp], fun x => by rw [hgaps₂, hlogged.gaps],
    hsess₂.trans hlogged.sessnum, hview₂.trans hlogged.view, hlogged.whole, fun h => hsound (hlogged.sound h)⟩,
    fun hlt hle => ?_, fun hno => ?_⟩
  · simp only [hlast₂] at hle
    have heq : vs.opnum = s₁.stateTransferOpEnd := by omega
    obtain ⟨hact₂, hend₂⟩ := hcalled heq
    exact ⟨by simp only [heq, if_true], hact₂, by rwa [hend] at hend₂⟩
  · simp only [hlast₂] at hno
    have hne : vs.opnum ≠ s₁.stateTransferOpEnd := by omega
    obtain rfl := huncalled hne
    exact ⟨by simp only [if_neg hne], hact, hend⟩

/-- The next number is one of those above. -/
theorem countP_succ_lt {k : Nat} : ∀ {l : List Nat}, k + 1 ∈ l →
    l.countP (fun x => k + 1 < x) < l.countP (fun x => k < x)
  | x :: xs, h => by
      have hmono : xs.countP (fun x => k + 1 < x) ≤ xs.countP (fun x => k < x) :=
        List.countP_mono_left fun y _ hy => by simp only [decide_eq_true_eq] at hy ⊢; omega
      rw [List.countP_cons, List.countP_cons]
      rcases List.mem_cons.mp h with rfl | h
      · simp only [lt_irrefl, decide_false, Nat.lt_succ_self, decide_true, if_true]
        simp
        omega
      · have := countP_succ_lt h
        have hx : (if decide (k + 1 < x) = true then 1 else 0) ≤ if decide (k < x) = true then 1 else 0 := by
          split_ifs with h1 h2
          · exact le_refl _
          · simp only [decide_eq_true_eq] at h1 h2
            omega
          · exact Nat.zero_le _
          · exact le_refl _
        omega

/-- The slots that follow are logged as long as they are committed gaps; `n` calls are enough when there are no
    more of them above the last operation. -/
theorem processGapsCounted_spec : ∀ (n : Nat) (vs : Viewstamp) (t : Replica × Nat),
    t.1.committedGaps.toList.countP (fun x => t.1.lastOp < x) ≤ n →
    Sat (processGapsCounted E request n vs) t
      (fun _ t' _ => ∃ es, Logged E t.1 t'.1 es ∧ Counts t t' ∧
        (∀ e ∈ es, e.state = .noop ∧ e.opnum ∈ t.1.committedGaps.toList) ∧
        t'.1.lastOp + 1 ∉ t'.1.committedGaps.toList)
      fun _ _ => ¬ t.1.Sound E
  | 0, vs, t, hn => by
      refine ⟨[], .refl _, .refl _, by simp, fun h => ?_⟩
      have := countP_succ_lt h
      omega
  | n + 1, vs, t, hn => by
      simp only [processGapsCounted, sat_bind, sat_beside, sat_get, sat_when]
      refine ⟨fun hgap => ?_, fun hno => ⟨[], .refl _, .refl _, by simp, hno⟩⟩
      have hone : ∀ {t' : Replica × Nat} {e : LogEntry}, e.state = .noop → e.opnum = t.1.lastOp + 1 →
          Logged E t.1 t'.1 [e] → t'.1.committedGaps = t.1.committedGaps := by
        intro t' e hst hop hl
        refine StdSet.ext_mem fun x => ?_
        rw [hl.gaps]
        simp only [List.mem_singleton, exists_eq_left, hst, true_and, hop]
        exact ⟨fun h => h.elim id fun h => h ▸ hgap, Or.inl⟩
      refine (processOperationCounted_spec rfl).mono (fun _ t₁ _ h₁ => ?_) fun _ _ h => h
      obtain ⟨hl₁, hc₁⟩ := h₁
      have hst : (loggedEntry t.1 request { vs with opnum := t.1.lastOp + 1, msgnum := t.1.nextMsgnum }
          .noop).state = .noop := if_pos hgap
      have hgaps := hone hst rfl hl₁
      have hlast : t₁.1.lastOp = t.1.lastOp + 1 := hl₁.lastOp
      have hfuel : t₁.1.committedGaps.toList.countP (fun x => t₁.1.lastOp < x) ≤ n := by
        have := countP_succ_lt hgap
        rw [hgaps, hlast]
        omega
      refine (processGapsCounted_spec n _ t₁ hfuel).mono (fun _ t₂ _ h₂ => ?_) fun _ _ h hs => h (hl₁.sound hs)
      obtain ⟨es, hl₂, hc₂, hes, hend⟩ := h₂
      refine ⟨_, hl₁.trans hl₂, hc₁.trans hc₂ (by simp only; omega) (by rw [hl₂.lastOp]; omega), fun e he => ?_, hend⟩
      rcases List.mem_cons.mp he with rfl | he
      · exact ⟨hst, hgap⟩
      · exact ⟨(hes e he).1, hgaps ▸ (hes e he).2⟩

/-- `ProcessNextOperation` logs the operation and then every slot that follows and is a committed gap. -/
theorem processNextOperationCounted_spec (request : Request) (vs : Viewstamp) (state : LogEntryState)
    (hvs : vs.opnum = t.1.lastOp + 1) :
    Sat (processNextOperationCounted E request vs state) t
      (fun _ t' _ => ∃ es, Logged E t.1 t'.1 (loggedEntry t.1 request vs state :: es) ∧ Counts t t' ∧
        (∀ e ∈ es, e.state = .noop ∧ e.opnum ∈ t.1.committedGaps.toList) ∧
        t'.1.lastOp + 1 ∉ t'.1.committedGaps.toList)
      fun _ _ => ¬ t.1.Sound E := by
  simp only [processNextOperationCounted, sat_bind, sat_beside, sat_get]
  refine (processOperationCounted_spec hvs).mono (fun _ t₁ _ h₁ => ?_) fun _ _ h => h
  obtain ⟨hl₁, hc₁⟩ := h₁
  have hlast : t₁.1.lastOp = t.1.lastOp + 1 := hl₁.lastOp
  refine (processGapsCounted_spec _ _ t₁ List.countP_le_length).mono (fun _ t₂ _ h₂ => ?_)
    fun _ _ h hs => h (hl₁.sound hs)
  obtain ⟨es, hl₂, hc₂, hes, hend⟩ := h₂
  refine ⟨es, hl₁.trans hl₂, hc₁.trans hc₂ (by omega) (by rw [hl₂.lastOp]; omega), fun e he => ?_, hend⟩
  obtain ⟨hst, hmem⟩ := hes e he
  refine ⟨hst, ((hl₁.gaps _).mp hmem).resolve_right ?_⟩
  -- what follows comes after the operation itself
  rintro ⟨x, hx, -, hop⟩
  obtain rfl : x = _ := List.mem_singleton.mp hx
  obtain ⟨i, hi⟩ := List.mem_iff_getElem?.mp he
  have h1 := hl₂.numbered i e hi
  have h2 : (loggedEntry t.1 request vs state).opnum = t.1.lastOp + 1 := hvs
  omega

/-- The same without the count. -/
theorem processNextOperation_spec (request : Request) (vs : Viewstamp) (state : LogEntryState)
    (hvs : vs.opnum = s.lastOp + 1) :
    Sat (processNextOperation E request vs state) s
      (fun _ s' _ => ∃ es, Logged E s s' (loggedEntry s request vs state :: es) ∧
        (∀ e ∈ es, e.state = .noop ∧ e.opnum ∈ s.committedGaps.toList) ∧
        s'.lastOp + 1 ∉ s'.committedGaps.toList)
      fun _ _ => ¬ s.Sound E :=
  erases_processNextOperation.sat <| (processNextOperationCounted_spec (t := (s, 0)) request vs state hvs).mono
    (fun _ _ _ ⟨es, hl, _, hes, hend⟩ => ⟨es, hl, hes, hend⟩) fun _ _ h => h

end Dsnet.NOPaxos
