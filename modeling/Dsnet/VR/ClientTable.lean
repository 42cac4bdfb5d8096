import Dsnet.VR.System
import Dsnet.VR.Effects

/-! The client table and the log: an entry of the table without a reply is that of a request the
    replica has logged and not executed, so `HandleRequest` may drop a duplicate of it.

    The table is written wherever an entry is appended, but not where entries are cut: a log that
    is installed over a request of the table leaves its entry behind, and from then on the leader
    drops the request without having it (`request_swallowed`). `TableLogged` is the invariant; every
    handler keeps it unless the log it installs loses such a request (`KeepsUnreplied`). -/

namespace Dsnet.VR
open Handler

/-- The log holds request number `i` of client `c`. -/
def Logged (l : Log) (c i : Nat) : Prop :=
  ∃ x ∈ l.contents, x.2.clientid = c ∧ x.2.clientreqid = i

/-- The client table waits for the reply to request number `i` of client `c`. -/
def Unreplied (s : Replica) (c i : Nat) : Prop :=
  ∃ e, s.clientTable c = some e ∧ e.replied = false ∧ e.lastReqId = i

instance (s : Replica) (c i : Nat) : Decidable (Unreplied s c i) :=
  match h : s.clientTable c with
  | none => isFalse fun ⟨e, he, _⟩ => by simp [h] at he
  | some e =>
    if h' : e.replied = false ∧ e.lastReqId = i then isTrue ⟨e, h, h'⟩
    else isFalse fun ⟨e', he', hr⟩ => h' (by simp_all)

/-- Every request the client table waits for is in the log. -/
def TableLogged (s : Replica) : Prop := ∀ c i, Unreplied s c i → Logged s.log c i

/-! ### The condition -/

/-- Of the entries that are cut when `es` is installed on the log `l`, those whose request the
    client table waits for are among the ones that are appended. -/
def KeepsUnreplied (s : Replica) (l : Log) (es : List LogEntry) : Prop :=
  ∀ x ∈ s.log.entries.drop (l.installPlan es).1,
    Unreplied s x.request.clientid x.request.clientreqid →
      ∃ y ∈ (l.installPlan es).2, y.request.clientid = x.request.clientid ∧
        y.request.clientreqid = x.request.clientreqid

instance (s : Replica) (l : Log) (es : List LogEntry) : Decidable (KeepsUnreplied s l es) := by
  unfold KeepsUnreplied; infer_instance

/-- The message installs no log that loses a request the client table waits for: the log of a
    StartView, of the latest DoViewChange of a quorum, of a state transfer, or of the leader's
    recovery response. -/
def LosesNone (E : Env) (s : Replica) : ToReplicaMessage → Prop
  | .startView m => Heeds s m.view → m.entries ≠ [] → KeepsUnreplied s (s.log.take m.lastop) m.entries
  | .doViewChange m => Heeds s m.view →
    ∀ msgs ∈ (s.doViewChangeQuorum.add m.view m.replicaidx m).checkForQuorum m.view,
    ∀ x ∈ (pickLatest (s.log.lastViewstamp.view, s.log.lastViewstamp.opnum, none) msgs.toList).2.2,
      x.entries ≠ [] → KeepsUnreplied s (s.log.take x.lastop) x.entries
  | .stateTransfer m =>
    m.view ≥ s.view → KeepsUnreplied s s.log (m.entries.filter (s.lastCommitted < ·.opnum))
  | .recoveryResponse m => s.status = .recovering → m.nonce = s.recoveryNonce →
    ∀ msgs ∈ (s.recoveryResponseQuorum.add m.nonce m.replicaidx m).checkForQuorum m.nonce,
    ∀ x ∈ msgs.find? (E.config.getLeaderIndex (highestView msgs)),
      KeepsUnreplied s s.log x.entries
  | _ => True

instance (E : Env) (s : Replica) (m : ToReplicaMessage) : Decidable (LosesNone E s m) := by
  cases m <;> unfold LosesNone <;> infer_instance

/-- The event installs no log that loses a request. -/
def LosesNoneStep (G : Group) (s : Sys) : Event → Prop
  | .deliver i _ => ∀ p ∈ s.net[i]?, LosesNone (G.env p.dst) (s.replica p.dst) p.msg
  | _ => True

instance (G : Group) (s : Sys) (e : Event) : Decidable (LosesNoneStep G s e) := by
  cases e <;> unfold LosesNoneStep <;> infer_instance

/-! ### Steps of the helper functions -/

variable {E : Env} {s s' : Replica}

theorem TableLogged.congr (h : TableLogged s) (ht : s'.clientTable = s.clientTable)
    (hl : s'.log = s.log) : TableLogged s' := by
  unfold TableLogged Unreplied at *
  rwa [ht, hl]

theorem Logged.of_find {l : Log} {k : Nat} {x : LogEntry} (h : l.find k = some x) :
    Logged l x.request.clientid x.request.clientreqid :=
  ⟨x.content, List.mem_of_getElem? (Log.getElem?_contents_of_find h).2, rfl, rfl⟩

theorem Logged.mono {l l' : Log} {c i : Nat} (h : Logged l c i) (hl : l.contents ⊆ l'.contents) :
    Logged l' c i := by
  obtain ⟨x, hx, hc⟩ := h
  exact ⟨x, hl hx, hc⟩

/-- Storing a reply leaves no new entry without one. -/
theorem Unreplied.of_recordReply {req : Request} {m : ReplyMessage} {c i : Nat}
    (h : Unreplied (recordReply s req m) c i) : Unreplied s c i := by
  obtain ⟨e, he, hr, hi⟩ := h
  simp only [recordReply, Replica.setClientEntry] at he
  by_cases hc : c = req.clientid
  · rw [if_pos hc] at he
    by_cases hle : (s.clientEntry req.clientid).lastReqId ≤ req.clientreqid
    · rw [if_pos hle] at he
      obtain rfl := Option.some.inj he
      cases hr
    · rw [if_neg hle] at he
      cases ht : s.clientTable req.clientid with
      | none => simp [Replica.clientEntry, ht] at hle
      | some e' => exact ⟨e, by simpa [Replica.clientEntry, hc, ht] using he, hr, hi⟩
  · rw [if_neg hc] at he
    exact ⟨e, he, hr, hi⟩

theorem TableLogged.commits (h : TableLogged s) (hc : Commits E s s') : TableLogged s' := by
  induction hc with
  | refl => exact h
  | @tail s₁ s₂ _ hstep ih =>
    obtain ⟨x, hx, rfl⟩ := hstep
    intro c i hu
    have hcontents : (afterCommit E s₁ x).log.contents = s₁.log.contents :=
      Log.contents_setStatus ..
    exact (ih c i (Unreplied.of_recordReply hu)).mono fun _ hz => hcontents.symm ▸ hz

theorem TableLogged.recorded (h : TableLogged s) (hr : Recorded s.log s.clientTable s'.clientTable)
    (hl : s'.log = s.log) : TableLogged s' := by
  rintro c i ⟨e, he, hrep, hi⟩
  rw [hl]
  rcases hr c e he with he | ⟨k, x, hx, hc, hi'⟩
  · exact h c i ⟨e, he, hrep, hi⟩
  · exact hc ▸ hi ▸ hi' ▸ Logged.of_find hx

/-- Appending an entry and recording its request. -/
theorem TableLogged.append {x : LogEntry} (h : TableLogged s)
    (hl : s.log.append x = some s'.log)
    (ht : s'.clientTable = (recordRequest s x.request).clientTable) : TableLogged s' := by
  have hcontents := Log.contents_append hl
  have hlast : s'.log.find (s.log.entries.length + 1) = some x := by
    rw [Log.find_eq_some, (Log.append_eq_some.mp hl).2]
    simp
  have hold : Recorded s'.log s.clientTable s.clientTable := fun c e he => Or.inl he
  have hnew : Recorded s'.log s.clientTable s'.clientTable := ht ▸ hold.recordRequest hlast
  rintro c i ⟨e, he, hrep, hi⟩
  rcases hnew c e he with he | ⟨k, y, hy, hc, hi'⟩
  · exact (h c i ⟨e, he, hrep, hi⟩).mono (hcontents ▸ List.subset_append_left ..)
  · exact hc ▸ hi ▸ hi' ▸ Logged.of_find hy

/-- Installing a log that loses no request the table waits for. -/
theorem TableLogged.installed {l : Log} {es : List LogEntry} (h : TableLogged s)
    (hk : KeepsUnreplied s l es) (hl : l.entries <+: s.log.entries)
    (ht : s'.clientTable = s.clientTable)
    (he : s'.log.entries = l.entries.take (l.installPlan es).1 ++
      (l.installPlan es).2.map Log.installed) : TableLogged s' := by
  intro c i hu
  have hu' : Unreplied s c i := by
    unfold Unreplied at hu ⊢
    rwa [ht] at hu
  obtain ⟨_, hz, rfl, rfl⟩ := h c i hu'
  obtain ⟨x, hx, rfl⟩ := List.mem_map.mp hz
  have hmem : ∀ y ∈ s'.log.entries, Logged s'.log y.request.clientid y.request.clientreqid :=
    fun y hy => ⟨y.content, List.mem_map_of_mem hy, rfl, rfl⟩
  rw [← List.take_append_drop (l.installPlan es).1 s.log.entries] at hx
  rcases List.mem_append.mp hx with hx | hx
  · refine hmem x ?_
    rw [he]
    obtain ⟨rest, hrest⟩ := hl
    rw [← hrest, List.take_append_of_le_length (Log.installPlan_le l es)] at hx
    exact List.mem_append_left _ hx
  · obtain ⟨y, hy, hc, hi⟩ := hk x hx hu'
    have hin := hmem (Log.installed y) (by
      rw [he]
      exact List.mem_append_right _ (List.mem_map_of_mem hy))
    simpa [Log.installed, LogEntry.content, hc, hi] using hin

/-! ### The handlers -/

/-- The entries of a state transfer are numbered in order. -/
def Numbered : ToReplicaMessage → Prop
  | .stateTransfer m => ∃ k, Log.NumberedFrom k m.entries
  | _ => True

/-- A handler that keeps the table logged, and sends numbered entries. -/
abbrev KeepsTable (m : VRHandler Unit) : Prop :=
  Keeps TableLogged (fun _ => True) (Sends Numbered) m

theorem keepsTable_commitUpTo (k : Nat) : KeepsTable (commitUpTo E k) := fun _ h =>
  sat_commitUpTo.mono (fun _ _ _ hc => ⟨h.commits hc.1, Sends.of_isReply hc.2.2⟩)
    (fun _ _ ⟨_, _, _, _, _, ho⟩ => ⟨trivial, Sends.of_isReply ho⟩)

theorem Acknowledged.sends {old : Nat} {o : List Output} (h : Acknowledged E s old s' o) :
    Sends Numbered o := by
  intro x hx
  obtain ⟨i, _, _, _, _, rfl⟩ := h.sent x hx
  trivial

theorem keepsTable_sendPrepareOKs (k : Nat) : KeepsTable (sendPrepareOKs E k) := fun s h =>
  sat_sendPrepareOKs.mono
    (fun _ _ _ ha => ⟨h.recorded ha.recorded (by rw [ha.frame]), ha.sends⟩)
    (fun _ _ ha => ⟨trivial, ha.sends⟩)

theorem keepsTable_requestStateTransfer : KeepsTable requestStateTransfer := by
  intro s h
  simp only [requestStateTransfer, sat_bind, sat_get, sat_ite, sat_pure, sat_modify, sat_emit,
    List.nil_append, sends_cons, sends_nil, carries_toAll, Numbered, and_true]
  exact ⟨fun _ => h, fun _ => h.congr rfl rfl⟩

theorem keepsTable_closeBatch : KeepsTable (closeBatch E) := by
  intro s h
  simp only [closeBatch, sat_bind, sat_get, sat_assert, sat_ofOption, sat_modify, sat_emit,
    List.nil_append, List.append_nil, sends_cons, sends_nil, Output.Carries,
    Numbered, implies_true, and_true]
  exact fun _ _ rs _ => h.congr rfl rfl

/-- A request answered without being logged has its reply. -/
theorem TableLogged.answered {req : Request} {e : ClientTableEntry} (h : TableLogged s)
    (he : e.replied = true) :
    TableLogged ((recordRequest s req).setClientEntry req.clientid e) := by
  rintro c i ⟨x, hx, hr, hi⟩
  simp only [recordRequest, Replica.setClientEntry] at hx
  by_cases hc : c = req.clientid
  · rw [if_pos hc] at hx
    obtain rfl := Option.some.inj hx
    rw [he] at hr
    cases hr
  · rw [if_neg hc, if_neg hc] at hx
    exact h c i ⟨x, hx, hr, hi⟩

/-- From the client table entry of a fresh request on. -/
theorem sat_processRequest_tableLogged {remote : Addr} {req : Request} (h : TableLogged s) :
    Sat (processRequest E remote req) (recordRequest s req)
      (fun _ s' o => TableLogged s' ∧ Sends Numbered o) (fun _ o => True ∧ Sends Numbered o) := by
  simp only [processRequest, sat_bind, sat_get, sat_ite, sat_ofOption, sat_modify, sat_emit,
    sends_nil, sends_cons, sends_append, Output.Carries, true_and, and_true, implies_true]
  refine ⟨fun _ => (h.answered rfl).congr rfl rfl, fun _ l hl => ?_⟩
  have hlogged : ∀ t : Replica, t.log = l → t.clientTable = (recordRequest s req).clientTable →
      TableLogged t := fun t ht ht' => h.append (ht ▸ hl) ht'
  refine ⟨fun _ => keepsTable_closeBatch.sat ?_ ?_ (fun _ _ _ ho => ho), fun _ => hlogged _ rfl rfl⟩
  · exact hlogged _ rfl rfl
  · exact fun _ _ _ ht ho => ⟨ht.congr rfl rfl, ho⟩

theorem keepsTable_handleRequest (remote : Addr) (req : Request) :
    KeepsTable (handleRequest E remote req) := by
  intro s h
  simp only [handleRequest, sat_bind, sat_get, sat_ite, sat_pure, sat_modify, List.nil_append,
    sends_nil, and_true, true_and]
  refine ⟨fun _ => h, fun _ => ⟨fun _ => h, fun _ => ?_⟩⟩
  have hs : ∀ a, TableLogged { s with clientAddresses := a } := fun a => h.congr rfl rfl
  cases checkDuplicate s req with
  | stale => exact ⟨hs _, sends_nil⟩
  | unreplied => exact ⟨hs _, sends_nil⟩
  | replied reply =>
    simp only [sat_whenSome, sat_emit, sends_cons, sends_nil, Output.Carries,
      and_true]
    exact ⟨fun _ _ => hs _, fun _ => hs _⟩
  | fresh =>
    simp only [sat_bind, sat_updateClientTable, List.nil_append, sends_nil, implies_true,
      and_true]
    exact fun _ => (sat_processRequest_tableLogged (hs _)).mono (fun _ _ _ h => h)
      (fun _ _ h => h.2)

/-- The loop of `HandlePrepare` appends and records one request after the other. -/
theorem keepsTable_appendPrepared (view op : Nat) (req : Request) :
    KeepsTable (appendPrepared view op req) := by
  intro s h
  simp only [appendPrepared, sat_bind, sat_get, sat_ite, sat_pure, sat_modify, sat_ofOption,
    sat_updateClientTable, List.append_nil, sends_nil, and_true, implies_true]
  exact ⟨fun _ => h, fun _ l hl _ => h.append hl rfl⟩

theorem keepsTable_handlePrepare (remote : Addr) (m : PrepareMessage) :
    KeepsTable (handlePrepare E remote m) := by
  intro s h
  simp only [handlePrepare, sat_bind, sat_get, sat_ite, sat_pure, sat_modify, sat_assert, sat_emit,
    sends_append, sends_cons, sends_nil, carries_toReplica, Numbered, true_and, and_true,
    implies_true]
  refine ⟨fun _ => h, fun _ => ⟨fun _ => h, fun _ => ⟨fun _ => ?_, fun _ _ _ _ =>
    ⟨fun _ => h.congr rfl rfl, fun _ => ⟨fun _ => ?_, fun _ => ?_⟩⟩⟩⟩⟩
  · exact keepsTable_requestStateTransfer.sat h (fun _ _ _ ht ho => ⟨ht.congr rfl rfl, ho⟩)
      (fun _ _ _ ho => ho)
  · exact keepsTable_requestStateTransfer.sat (h.congr rfl rfl)
      (fun _ _ _ ht ho => ⟨ht.congr rfl rfl, ho⟩) (fun _ _ _ ho => ho)
  · have happ : ∀ x : Request × Nat, KeepsTable (appendPrepared m.view x.2 x.1) :=
      fun x => keepsTable_appendPrepared _ _ _
    exact (Keeps.forEach happ sends_nil (fun _ _ => .append) _).sat (h.congr rfl rfl) (fun _ _ _ ht ho => ⟨fun _ => ⟨ht, ho⟩, fun _ => ho⟩)
      (fun _ _ _ ho => ho)

theorem keepsTable_handlePrepareOK (m : PrepareOKMessage) : KeepsTable (handlePrepareOK E m) := by
  intro s h
  simp only [handlePrepareOK, sat_bind, sat_get, sat_ite, sat_pure, sat_modify, sat_emit,
    sat_whenSome, sat_when, sends_append, sends_cons, sends_nil,
    carries_toAll, Numbered, true_and, and_true]
  refine ⟨fun _ => h, fun _ => ⟨fun _ => h, fun _ => ⟨fun _ => keepsTable_requestStateTransfer.sat h
    (fun _ _ _ ht ho => ⟨ht, ho⟩) (fun _ _ _ ho => ho),
    fun _ => ⟨fun _ => ⟨fun msgs _ => ?_, fun _ => h.congr rfl rfl⟩, fun _ => h⟩⟩⟩⟩
  refine (keepsTable_commitUpTo m.opnum).sat (h.congr rfl rfl) ?_ (fun _ _ _ ho => ho)
  refine fun _ t o ht ho => ⟨fun _ => ⟨ht, ho⟩, fun _ => ⟨fun _ => ⟨fun _ => ?_, fun _ =>
    ⟨ht.congr rfl rfl, ho⟩⟩, fun _ => ⟨ht.congr rfl rfl, ho⟩⟩⟩
  exact keepsTable_closeBatch.sat (ht.congr rfl rfl) (fun _ _ _ ht' ho' => ⟨ht', ho, ho'⟩)
    (fun _ _ _ ho' => ⟨ho, ho'⟩)

theorem keepsTable_handleCommit (m : CommitMessage) : KeepsTable (handleCommit E m) := by
  intro s h
  simp only [handleCommit, sat_bind, sat_get, sat_ite, sat_pure, sat_modify, sat_assert,
    List.nil_append, sends_nil, and_true, implies_true]
  have hs : TableLogged (s.start .viewChange) := h.congr rfl rfl
  exact ⟨fun _ => h, fun _ => ⟨fun _ => h, fun _ => ⟨fun _ => keepsTable_requestStateTransfer s h,
    fun _ _ => ⟨fun _ => hs, fun _ => ⟨fun _ => keepsTable_requestStateTransfer _ hs,
      fun _ => keepsTable_commitUpTo _ _ hs⟩⟩⟩⟩⟩

theorem keepsTable_handleRequestStateTransfer (remote : Addr) (m : RequestStateTransferMessage) :
    KeepsTable (handleRequestStateTransfer remote m) := by
  intro s h
  simp only [handleRequestStateTransfer, sat_bind, sat_get, sat_ite, sat_pure, sat_emit,
    List.nil_append, sends_cons, sends_nil, carries_toAddr, Numbered, and_true]
  exact ⟨fun _ => h, fun _ => ⟨fun _ => keepsTable_requestStateTransfer s h,
    fun _ => ⟨h, _, Log.numberedFrom_dump _ _⟩⟩⟩

theorem keepsTable_handleStartViewChange (m : StartViewChangeMessage) :
    KeepsTable (handleStartViewChange E m) := by
  intro s h
  have hs : ∀ v q, TableLogged { changing s v with startViewChangeQuorum := q } :=
    fun _ _ => h.congr rfl rfl
  have hs' : ∀ q, TableLogged { s with startViewChangeQuorum := q } := fun _ => h.congr rfl rfl
  simp only [handleStartViewChange, sat_bind, sat_get, sat_ite, sat_pure, sat_modify, sat_assert,
    sat_when, sat_whenSome, sat_startViewChange, sat_ofOption, sat_emit, sends_append,
    sends_cons, sends_nil, carries_toReplica, carries_toAll, Numbered, startViewChangeOf,
    true_and, and_true, implies_true]
  exact ⟨fun _ => h, fun _ => ⟨fun _ => h, fun _ => ⟨fun _ _ => ⟨fun _ _ => ⟨fun _ _ _ => hs _ _,
    fun _ => hs _ _⟩, fun _ => hs _ _⟩, fun _ _ => ⟨fun _ _ => ⟨fun _ _ _ => hs' _,
    fun _ => hs' _⟩, fun _ => hs' _⟩⟩⟩⟩

/-- `RemoveAfter` and `Install`, as `HandleDoViewChange` and `HandleStartView` use them. -/
theorem TableLogged.replaced {l : Log} {k : Nat} {es : List LogEntry} (h : TableLogged s)
    (hk : KeepsUnreplied s (s.log.take k) es) (hl : (s.log.take k).install es = some l) :
    TableLogged { s with log := l } :=
  h.installed hk (List.take_prefix ..) rfl (Log.install_entries hl)

/-- The log of the latest message of a quorum. -/
theorem sat_installLatest_tableLogged {m x : DoViewChangeMessage} (h : TableLogged s)
    (hk : x.entries ≠ [] → KeepsUnreplied s (s.log.take x.lastop) x.entries) :
    Sat (installLatest m x) s (fun _ s' o => TableLogged s' ∧ Sends Numbered o)
      (fun _ o => Sends Numbered o) := by
  unfold installLatest
  simp only [sat_bind, sat_get, List.nil_append]
  split
  · simp [h]
  · rename_i e es he
    simp only [sat_bind, sat_assert, sat_ofOption, sat_modify, Log.removeAfter_succ,
      List.append_nil, sends_nil, implies_true, and_true]
    rintro _ _ ⟨rfl⟩ l hl
    exact h.replaced (he ▸ hk (by simp [he])) hl

/-- The log of a StartView. -/
theorem sat_installStartView_tableLogged {m : StartViewMessage} (h : TableLogged s)
    (hk : m.entries ≠ [] → KeepsUnreplied s (s.log.take m.lastop) m.entries) :
    Sat (installStartView m) s (fun _ s' o => TableLogged s' ∧ Sends Numbered o)
      (fun _ o => Sends Numbered o) := by
  unfold installStartView
  simp only [sat_bind, sat_get, List.nil_append]
  split
  · simp [h]
  · rename_i e es he
    simp only [sat_bind, sat_assert, sat_ofOption, sat_modify, Log.removeAfter_succ,
      List.append_nil, sends_nil, implies_true, and_true]
    rintro _ _ ⟨rfl⟩ l hl
    exact h.replaced (he ▸ hk (by simp [he])) hl

theorem keepsTable_announceView (v latestOp minCommitted : Nat)
    (latestMsg : Option DoViewChangeMessage) :
    KeepsTable (announceView E v latestOp minCommitted latestMsg) := by
  intro s h
  have hcommit : KeepsTable (whenSome latestMsg fun m => commitUpTo E m.lastcommitted) := by
    cases latestMsg with
    | none => exact fun _ h => ⟨h, sends_nil⟩
    | some x => exact keepsTable_commitUpTo x.lastcommitted
  simp only [announceView, sat_bind, sat_enterView, sat_get, sat_assert, sat_modify, sat_emit,
    sends_append, sends_cons, sends_nil, carries_toAll, Numbered, true_and, and_true, implies_true]
  exact fun _ => hcommit.sat (h.congr rfl rfl) (fun _ _ _ ht ho => ⟨ht, ho⟩) (fun _ _ _ ho => ho)

theorem sat_completeViewChange_tableLogged {wild : Option Nat} {m : DoViewChangeMessage}
    {msgs : StdMap Nat DoViewChangeMessage} (h : TableLogged s)
    (hk : ∀ x ∈ (pickLatest (s.log.lastViewstamp.view, s.log.lastViewstamp.opnum, none)
      msgs.toList).2.2, x.entries ≠ [] → KeepsUnreplied s (s.log.take x.lastop) x.entries) :
    Sat (completeViewChange E wild m msgs) s (fun _ s' o => TableLogged s' ∧ Sends Numbered o)
      (fun _ o => Sends Numbered o) := by
  have hinstall : Sat (whenSome (pickLatest (s.log.lastViewstamp.view, s.log.lastViewstamp.opnum,
      none) msgs.toList).2.2 (installLatest m)) s
      (fun _ s' o => TableLogged s' ∧ Sends Numbered o) (fun _ o => Sends Numbered o) := by
    rw [sat_whenSome]
    exact ⟨fun x hx => sat_installLatest_tableLogged h (hk x hx), fun _ => ⟨h, sends_nil⟩⟩
  simp only [completeViewChange, sat_bind, sat_get, sat_ofOption, sends_append, sends_nil, true_and,
    and_true]
  refine hinstall.mono (fun _ t o ht => ?_) (fun _ _ ho => ho)
  exact ⟨fun _ _ => ⟨fun _ _ => (keepsTable_announceView _ _ _ _).sat ht.1
    (fun _ _ _ ht' ho' => ⟨ht', ht.2, ho'⟩) (fun _ _ _ ho' => ⟨ht.2, ho'⟩), fun _ => ht.2⟩,
    fun _ => ht.2⟩

theorem sat_handleDoViewChange_tableLogged {wild : Option Nat} {m : DoViewChangeMessage}
    (h : TableLogged s) (hl : LosesNone E s (.doViewChange m)) :
    Sat (handleDoViewChange E wild m) s (fun _ s' o => TableLogged s' ∧ Sends Numbered o)
      (fun _ o => Sends Numbered o) := by
  simp only [handleDoViewChange, sat_bind, sat_get, sat_ite, sat_pure, sat_modify, sat_assert,
    sat_when, sat_whenSome, sat_startViewChange, sends_append, sends_cons, sends_nil, carries_toAll,
    Numbered, startViewChangeOf, true_and, and_true, implies_true]
  refine ⟨fun _ => h, fun hge => ⟨fun _ => h, fun hne => ⟨fun _ _ => ⟨fun msgs hq => ?_, fun _ =>
    h.congr rfl rfl⟩, fun _ _ => ⟨fun msgs hq => ?_, fun _ => h.congr rfl rfl⟩⟩⟩⟩
  · exact sat_completeViewChange_tableLogged (h.congr rfl rfl) (hl ⟨hge, hne⟩ msgs hq)
  · exact sat_completeViewChange_tableLogged (h.congr rfl rfl) (hl ⟨hge, hne⟩ msgs hq)

theorem sat_handleStartView_tableLogged {m : StartViewMessage} (h : TableLogged s)
    (hl : LosesNone E s (.startView m)) :
    Sat (handleStartView E m) s (fun _ s' o => TableLogged s' ∧ Sends Numbered o)
      (fun _ o => Sends Numbered o) := by
  simp only [handleStartView, sat_bind, sat_get, sat_ite, sat_pure, sat_modify, sat_assert,
    sat_enterView, sends_append, sends_nil, true_and, and_true, implies_true]
  refine ⟨fun _ => h, fun hge => ⟨fun _ => h, fun hne _ => ?_⟩⟩
  refine (sat_installStartView_tableLogged h (hl ⟨hge, hne⟩)).mono (fun _ t o ht => ⟨fun _ => ?_, fun _ => ht.2⟩)
    (fun _ _ ho => ho)
  refine (keepsTable_commitUpTo _).sat (ht.1.congr rfl rfl) (fun _ t' o' ht' ho' => ?_)
    (fun _ _ _ ho' => ⟨ht.2, ho'⟩)
  exact (keepsTable_sendPrepareOKs _).sat ht'
    (fun _ _ _ ht'' ho'' => ⟨ht'', ht.2, ho', ho''⟩) (fun _ _ _ ho'' => ⟨ht.2, ho', ho''⟩)

theorem keepsTable_resumeTransferred (k old : Nat) : KeepsTable (resumeTransferred E k old) := by
  intro s h
  have hp : ∀ x : Addr × PrepareMessage, KeepsTable (handlePrepare E x.1 x.2) :=
    fun x => keepsTable_handlePrepare _ _
  simp only [resumeTransferred, sat_bind, sat_get, sat_assert, sat_modify, sends_append, sends_nil,
    true_and, and_true, implies_true]
  refine fun _ => (keepsTable_commitUpTo k).sat h (fun _ s₁ o₁ h₁ ho₁ => ?_) (fun _ _ _ ho => ho)
  refine (keepsTable_sendPrepareOKs old).sat h₁ (fun _ s₂ o₂ h₂ ho₂ => ?_)
    (fun _ _ _ ho => ⟨ho₁, ho⟩)
  exact (Keeps.forEach hp sends_nil (fun _ _ => .append) _).sat (h₂.congr rfl rfl)
    (fun _ _ _ h₃ ho₃ => ⟨h₃, ho₁, ho₂, ho₃⟩) (fun _ _ _ ho₃ => ⟨ho₁, ho₂, ho₃⟩)

theorem sat_handleStateTransfer_tableLogged {m : StateTransferMessage} {k : Nat} (h : TableLogged s)
    (hn : Log.NumberedFrom k m.entries) (hl : LosesNone E s (.stateTransfer m)) :
    Sat (handleStateTransfer E m) s (fun _ s' o => TableLogged s' ∧ Sends Numbered o)
      (fun _ o => Sends Numbered o) := by
  simp only [handleStateTransfer, sat_bind, sat_get, sat_ite, sat_pure, sat_when, sat_enterView,
    sends_append, sends_nil, true_and, and_true]
  refine ⟨fun _ => h, fun hge => (sat_installTransferred hn).mono ?_ ?_⟩
  · rintro old t o ⟨⟨hframe, hentries⟩, rfl⟩
    have ht : TableLogged t :=
      h.installed (hl (Nat.not_lt.mp hge)) (List.prefix_refl _) (by rw [hframe]) hentries
    have hresume : ∀ t' : Replica, TableLogged t' → Sat (resumeTransferred E m.opnum old) t'
        (fun _ s' o => TableLogged s' ∧ Sends Numbered [] ∧ Sends Numbered o)
        (fun _ o => Sends Numbered [] ∧ Sends Numbered o) := fun t' ht' =>
      (keepsTable_resumeTransferred _ _).sat ht' (fun _ _ _ h' ho => ⟨h', sends_nil, ho⟩)
        (fun _ _ _ ho => ⟨sends_nil, ho⟩)
    exact ⟨fun _ => hresume _ (ht.congr rfl rfl), fun _ => hresume _ ht⟩
  · rintro _ o rfl
    exact sends_nil

theorem keepsTable_handleUnloggedRequest (remote : Addr) (op : String) :
    KeepsTable (handleUnloggedRequest E remote op) := by
  intro s h
  simp only [handleUnloggedRequest, sat_bind, sat_get, sat_ite, sat_pure, sat_modify, sat_emit,
    List.nil_append, sends_nil, sends_cons, carries_toClient, and_true]
  exact ⟨fun _ => h, fun _ => h.congr rfl rfl⟩

theorem keepsTable_handleRecovery (remote : Addr) (m : RecoveryMessage) :
    KeepsTable (handleRecovery E remote m) := by
  intro s h
  simp only [handleRecovery, sat_bind, sat_get, sat_ite, sat_pure, sat_emit, List.nil_append,
    sends_nil, sends_cons, carries_toAddr, Numbered, and_true]
  exact ⟨fun _ => h, fun _ => h⟩

theorem sat_handleRecoveryResponse_tableLogged {m : RecoveryResponseMessage} (h : TableLogged s)
    (hl : LosesNone E s (.recoveryResponse m)) :
    Sat (handleRecoveryResponse E m) s (fun _ s' o => TableLogged s' ∧ Sends Numbered o)
      (fun _ o => Sends Numbered o) := by
  simp only [handleRecoveryResponse, sat_bind, sat_get, sat_ite, sat_pure, sat_modify, sat_whenSome,
    sat_when, sat_assert, List.nil_append, sends_nil, and_true, implies_true]
  refine ⟨fun _ => h, fun hst => ⟨fun _ => h, fun hnonce => ⟨fun msgs hq _ => ⟨fun x hx =>
    ⟨fun _ => ?_, fun _ => h.congr rfl rfl⟩, fun _ => h.congr rfl rfl⟩,
    fun _ => h.congr rfl rfl⟩⟩⟩
  simp only [installRecovery, sat_bind, sat_get, sat_ofOption, sat_modify, sat_enterView,
    List.nil_append, sends_nil, implies_true, and_true]
  intro l hinst
  have hinstalled : TableLogged { s with log := l } :=
    h.installed (hl (not_not.mp hst) (not_not.mp hnonce) msgs hq x hx) (List.prefix_refl _) rfl
      (Log.install_entries hinst)
  exact (keepsTable_commitUpTo _).sat (hinstalled.congr rfl rfl) (fun _ _ _ h' ho => ⟨h', ho⟩)
    (fun _ _ _ ho => ho)

/-! ### Runs -/

/-- Every message keeps the table logged, unless the log it installs loses a request. -/
theorem sat_receiveMessage_tableLogged {wild : Option Nat} {remote : Addr} {m : ToReplicaMessage}
    (h : TableLogged s) (hn : Numbered m) (hl : LosesNone E s m) :
    Sat (receiveMessage E wild remote m) s (fun _ s' o => TableLogged s' ∧ Sends Numbered o)
      (fun _ o => Sends Numbered o) := by
  have hkeep : ∀ {m : VRHandler Unit}, KeepsTable m →
      Sat m s (fun _ s' o => TableLogged s' ∧ Sends Numbered o) (fun _ o => Sends Numbered o) :=
    fun hm => hm.sat h (fun _ _ _ h' ho => ⟨h', ho⟩) (fun _ _ _ ho => ho)
  cases m with
  | request req => exact hkeep (keepsTable_handleRequest remote req)
  | unloggedRequest op => exact hkeep (keepsTable_handleUnloggedRequest remote op)
  | prepare m => exact hkeep (keepsTable_handlePrepare remote m)
  | prepareOK m => exact hkeep (keepsTable_handlePrepareOK m)
  | commit m => exact hkeep (keepsTable_handleCommit m)
  | requestStateTransfer m => exact hkeep (keepsTable_handleRequestStateTransfer remote m)
  | stateTransfer m => exact sat_handleStateTransfer_tableLogged h hn.choose_spec hl
  | startViewChange m => exact hkeep (keepsTable_handleStartViewChange m)
  | doViewChange m => exact sat_handleDoViewChange_tableLogged h hl
  | startView m => exact sat_handleStartView_tableLogged h hl
  | recovery m => exact hkeep (keepsTable_handleRecovery remote m)
  | recoveryResponse m => exact sat_handleRecoveryResponse_tableLogged h hl
  | notSet => exact sends_nil

theorem keepsTable_timeout (t : Timer) : KeepsTable (timeout E t) := by
  intro s h
  cases t with
  | viewChange =>
    simp only [timeout, sat_bind, sat_get, sat_startViewChange, List.nil_append, sends_cons,
      sends_nil, carries_toAll, startViewChangeOf, Numbered, and_true]
    exact h.congr rfl rfl
  | nullCommit =>
    simp only [timeout, sendNullCommit, sat_bind, sat_get, sat_assert, sat_emit, List.nil_append,
      sends_cons, sends_nil, carries_toAll, Numbered, and_true, implies_true]
    exact fun _ => h
  | stateTransfer => exact ⟨h.congr rfl rfl, sends_nil⟩
  | resendPrepare =>
    simp only [timeout, resendPrepare, sat_bind, sat_get, sat_assert, sat_ite, sat_pure, sat_emit,
      List.nil_append, sends_nil, sends_cons, carries_toAll, and_true, implies_true]
    refine fun _ => ⟨fun _ => h, fun _ => ⟨h, ?_⟩⟩
    cases s.lastPrepare <;> trivial
  | closeBatch => exact keepsTable_closeBatch s h
  | recovery =>
    simp only [timeout, sendRecoveryMessages, sat_bind, sat_get, sat_emit, List.nil_append,
      sends_nil, sends_cons, carries_toAll, Numbered, and_true]
    exact h

/-- The table of every running replica is logged, and every transfer is numbered. -/
structure TableInv (s : Sys) : Prop where
  tables : ∀ r, s.stopped r = false → TableLogged (s.replica r)
  net : ∀ p ∈ s.net, Numbered p.msg

theorem tableLogged_of_empty (h : ∀ c, s.clientTable c = none) : TableLogged s := by
  rintro c i ⟨e, he, _⟩
  rw [h c] at he
  cases he

theorem tableInv_init (G : Group) : TableInv (system G).init := by
  refine ⟨fun r _ => tableLogged_of_empty fun c => ?_, fun p hp => by cases hp⟩
  show (Replica.initial (G.env r)).clientTable c = none
  unfold Replica.initial
  simp only
  split <;> rfl

theorem tableInv_step {G : Group} {s s' : Sys} {e : Event} (h : TableInv s)
    (hc : LosesNoneStep G s e) (hstep : s.step G e = some s') : TableInv s' := by
  obtain ⟨ht, hn⟩ := Sys.local_step (I := fun _ => TableLogged) (P := Numbered) h.tables h.net hstep
    (by
      intro r m st he hlive
      rcases Event.of_handler he with ⟨wild, remote, msg, hmsg, rfl, rfl⟩ |
        ⟨t, rfl, ht, rfl, rfl⟩ | ⟨nonce, rfl, rfl, rfl⟩
      · have hr := hlive.resolve_left (by cases hmsg <;> simp [Event.isRestart])
        cases hmsg with
        | request => exact sat_receiveMessage_tableLogged (h.tables r hr) trivial trivial
        | unlogged => exact sat_receiveMessage_tableLogged (h.tables r hr) trivial trivial
        | deliver hp =>
          exact sat_receiveMessage_tableLogged (h.tables r hr)
            (h.net _ (List.mem_of_getElem? hp)) (hc _ hp)
      · have hr := hlive.resolve_left (by simp [Event.isRestart])
        exact (keepsTable_timeout t).sat (h.tables r hr) (fun _ _ _ h' ho => ⟨h', ho⟩)
          (fun _ _ _ ho => ho)
      · simp only [sendRecoveryMessages, sat_bind, sat_get, sat_emit, List.nil_append, sends_cons,
          sends_nil, carries_toAll, Numbered, and_true]
        exact tableLogged_of_empty fun c => rfl)
  exact ⟨ht, hn⟩

theorem unreplied_of_checkDuplicate {req : Request} (h : checkDuplicate s req = .unreplied) :
    Unreplied s req.clientid req.clientreqid := by
  unfold checkDuplicate at h
  cases ht : s.clientTable req.clientid with
  | none => simp [ht] at h
  | some e =>
    simp only [ht] at h
    split_ifs at h with h₁ h₂ h₃
    exact ⟨e, ht, by simpa using h₃, h₂.symm⟩

end Dsnet.VR
